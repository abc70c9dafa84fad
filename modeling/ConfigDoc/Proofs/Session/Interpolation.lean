import ConfigDoc.Proofs.Session.Drain
import ConfigDoc.Proofs.Template.Settled

namespace ConfigDoc.Session
open Reference Template Value

def Awaits (document : Value) : Job → Prop
  | .interpolate target t => PointsTo (rootOf document) target (.template t)
  | .sweep => True
  | .directives _ _ => False

def Resolvable (document : Value) : Job → Prop
  | .interpolate _ t => Ready document t
  | .sweep => ∀ t ∈ document.templates, Ready document t
  | .directives _ _ => False

def Done (root : Value) : Job → Prop
  | .interpolate target _ => ∃ text, root.lookup? target.location = some (.string text)
  | .sweep => root.hasTemplate = false
  | .directives _ _ => False

variable {σ : Type} {config : Config σ} {document later : Value} {s after : Session σ} {job : Job}

/-- The session holds a state of the document in which some templates have got their texts. -/
def Holds (document : Value) (s : Session σ) : Prop :=
  ∃ later, s.root = rootOf later ∧ Settled document later

/-- What resolving templates does to a session: some templates give way to their texts. -/
structure Advances (document : Value) (s after : Session σ) : Prop where
  host : after.host = s.host
  root : Settles (Ready document) (textOf document.get?) s.root after.root

theorem Advances.refl (document : Value) (s : Session σ) : Advances document s s :=
  ⟨rfl, Settles.refl _ _ _⟩

theorem Advances.trans {last : Session σ} (h : Advances document s after)
    (h' : Advances document after last) : Advances document s last :=
  ⟨h'.host.trans h.host, h.root.trans h'.root⟩

theorem Done.advances (hd : Done s.root job) (h : Advances document s after) :
    Done after.root job := by
  cases job with
  | interpolate target t =>
    obtain ⟨text, ht⟩ := hd
    obtain ⟨w, hw, hs⟩ := h.root.exists_lookup? ht
    cases hs
    exact ⟨text, hw⟩
  | sweep => exact h.root.hasTemplate hd
  | directives target calls => exact hd

theorem settles_rootOf_iff {ready : Template → Prop} {textOf : String → String} {v root : Value} :
    Settles ready textOf (rootOf v) root ↔ ∃ w, root = rootOf w ∧ Settles ready textOf v w := by
  constructor
  · rintro ⟨ns, rfl, w, rest, rfl, hw, rfl⟩
    exact ⟨w, rfl, hw⟩
  · rintro ⟨w, rfl, hw⟩
    exact ⟨_, rfl, w, [], rfl, hw, rfl⟩

theorem holds_of_root (h : s.root = rootOf document) : Holds document s :=
  ⟨document, h, Settles.refl _ _ document⟩

theorem Holds.settles (h : Holds document s) :
    Settles (Ready document) (textOf document.get?) (rootOf document) s.root :=
  settles_rootOf_iff.2 h

theorem Holds.advances (h : Holds document s) (ha : Advances document s after) :
    Holds document after :=
  settles_rootOf_iff.1 (h.settles.trans ha.root)

theorem mem_templates_of_awaits {target : Reference} {t : Template}
    (h : Awaits document (.interpolate target t)) : t ∈ document.templates := by
  have hm := templates_subset_of_lookup? h.lookup (List.mem_singleton_self t)
  rwa [rootOf, templates, memberTemplates, memberTemplates, List.append_nil] at hm

/-- A ready template gets its text, whatever else has been resolved before it. -/
theorem interpolate_advances (hi : config.interpolate = true) (h : Holds document s)
    {target : Reference} {t : Template} (ha : Awaits document (.interpolate target t))
    (ht : Ready document t) :
    ∃ after, interpolate config target t s = (.ok (), after) ∧ Advances document s after ∧
      Done after.root (.interpolate target t) := by
  have hs := h.settles
  obtain ⟨later, hroot, hsettled⟩ := h
  obtain ⟨u, hu, hsu⟩ := hs.pointsTo ha
  -- In the slot there is the template still, or the same text already.
  have hchange : Settles (Ready document) (textOf document.get?) u
      (.string (t.substitute (textOf document.get?))) := by
    rcases hsu with rfl | ⟨-, rfl⟩
    · exact .inr ⟨ht, rfl⟩
    · rfl
  obtain ⟨root, hassign, hroot'⟩ := (Settles.refl _ _ s.root).assign? hu.lookup hchange
  refine ⟨{ s with root := root }, ?_, ⟨rfl, hroot'⟩, _, lookup?_of_assign? hassign⟩
  rw [interpolate, sources_of_root hroot, resolveIf, if_pos hi, hsettled.resolve_eq_ok ht]
  dsimp only [bind, Except.bind]
  rw [set_of_pointsTo hu hassign]

/-- A template that is not ready fails whatever has been resolved before. -/
theorem interpolate_error (hi : config.interpolate = true) (h : Holds document s)
    (target : Reference) {t : Template} (ht : ¬ Ready document t) :
    ∃ chain, interpolate config target t s = (.error (.circularTemplate chain), s) := by
  obtain ⟨later, hroot, hsettled⟩ := h
  obtain ⟨chain, hc⟩ := hsettled.resolve_eq_error ht
  refine ⟨chain, ?_⟩
  rw [interpolate, sources_of_root hroot, resolveIf, if_pos hi, hc]
  rfl

/-- If all templates are ready, a sweep finishes the document in whatever state it is. -/
theorem sweep_advances (hi : config.interpolate = true) (h : Holds document s)
    (hr : ∀ t ∈ document.templates, Ready document t) :
    ∃ after, sweep config s = (.ok (), after) ∧ Advances document s after ∧
      Done after.root .sweep := by
  obtain ⟨later, hroot, hsettled⟩ := h
  rw [sweep_eq config hroot]
  cases ht : later.hasTemplate with
  | false =>
    refine ⟨s, rfl, .refl document s, ?_⟩
    rw [hroot]
    exact (hasTemplate_rootOf later).trans ht
  | true =>
    have hready : ∀ t ∈ later.templates, Ready document t := fun t hm =>
      hr t (hsettled.templates.1 hm)
    have hresolve : later.resolveAll config.interpolate [later] =
        .ok (later.fill (textOf document.get?)) := by
      refine mapTemplates_eq_fill later fun t hm => ?_
      rw [resolveIf, if_pos hi, hsettled.resolve_eq_ok (hready t hm)]
      rfl
    rw [if_pos rfl, hresolve]
    refine ⟨_, rfl, ⟨rfl, ?_⟩, (hasTemplate_rootOf _).trans (hasTemplate_fill _ later)⟩
    rw [hroot]
    exact settles_rootOf_iff.2 ⟨_, rfl, settles_fill later hready⟩

/-- A template that is not ready is still there when the sweep comes, and lets it fail. -/
theorem sweep_error (hi : config.interpolate = true) (h : Holds document s)
    (hr : ¬ ∀ t ∈ document.templates, Ready document t) :
    ∃ chain, sweep config s = (.error (.circularTemplate chain), s) := by
  obtain ⟨later, hroot, hsettled⟩ := h
  push Not at hr
  obtain ⟨t, ht, hnot⟩ := hr
  have hleft : t ∈ later.templates := (hsettled.templates.2 t ht).resolve_right hnot
  have hhas : later.hasTemplate = true := by
    rw [← Bool.not_eq_false, hasTemplate_eq_false_iff]
    exact List.ne_nil_of_mem hleft
  rw [sweep_eq config hroot, if_pos hhas]
  cases hm : later.resolveAll config.interpolate [later] with
  | ok v =>
    obtain ⟨u, hu⟩ := resolve_isOk_of_mapTemplates later hm t hleft
    obtain ⟨chain, hc⟩ := hsettled.resolve_eq_error hnot
    rw [resolveIf, if_pos hi, hc] at hu
    cases hu
  | error e =>
    obtain ⟨u, -, hu⟩ := resolve_error_of_mapTemplates later hm
    rw [resolveIf, if_pos hi] at hu
    rcases bind_eq_error_iff.1 hu with hu | ⟨text, -, hu⟩
    · obtain ⟨chain, rfl⟩ := circular_of_resolveWithin hu
      exact ⟨chain, rfl⟩
    · cases hu

theorem runJob_advances (mode : Mode) (hi : config.interpolate = true) (h : Holds document s)
    (ha : Awaits document job) (hr : Resolvable document job) :
    ∃ after, runJob config mode job s = (.ok (), after) ∧ Advances document s after ∧
      Done after.root job := by
  have h' : Holds document (s.record (.job job)) := h
  cases job with
  | interpolate target t =>
    obtain ⟨after, he, hadv, hd⟩ := interpolate_advances hi h' ha hr
    exact ⟨after, he, ⟨hadv.host, hadv.root⟩, hd⟩
  | sweep =>
    obtain ⟨after, he, hadv, hd⟩ := sweep_advances hi h' hr
    exact ⟨after, he, ⟨hadv.host, hadv.root⟩, hd⟩
  | directives target calls => exact ha.elim

theorem runJob_error (mode : Mode) (hi : config.interpolate = true) (h : Holds document s)
    (ha : Awaits document job) (hr : ¬ Resolvable document job) :
    ∃ chain after, runJob config mode job s = (.error (.circularTemplate chain), after) ∧
      after.host = s.host := by
  have h' : Holds document (s.record (.job job)) := h
  cases job with
  | interpolate target t =>
    obtain ⟨chain, he⟩ := interpolate_error hi h' target hr
    exact ⟨chain, _, he, rfl⟩
  | sweep =>
    obtain ⟨chain, he⟩ := sweep_error hi h' hr
    exact ⟨chain, _, he, rfl⟩
  | directives target calls => exact ha.elim

/-- Resolvable jobs all succeed, in any order, and each of them gets done. -/
theorem runAll_advances (mode : Mode) (hi : config.interpolate = true) {jobs : List Job}
    (ha : ∀ job ∈ jobs, Awaits document job) (hr : ∀ job ∈ jobs, Resolvable document job)
    (h : Holds document s) :
    ∃ after, runAll config mode jobs s = (.ok (), after) ∧ Advances document s after ∧
      ∀ job ∈ jobs, Done after.root job := by
  induction jobs generalizing s with
  | nil => exact ⟨s, rfl, .refl document s, nofun⟩
  | cons job rest ih =>
    obtain ⟨haj, har⟩ := List.forall_mem_cons.1 ha
    obtain ⟨hrj, hrr⟩ := List.forall_mem_cons.1 hr
    obtain ⟨next, hn, hadv, hdone⟩ := runJob_advances mode hi h haj hrj
    obtain ⟨after, hrest, hadv', hall⟩ := ih har hrr (h.advances hadv)
    refine ⟨after, ?_, hadv.trans hadv', List.forall_mem_cons.2 ⟨hdone.advances hadv', hall⟩⟩
    rw [runAll, hn]
    exact hrest

/-- Among jobs of which one is not resolvable, the first such one fails. -/
theorem runAll_error (mode : Mode) (hi : config.interpolate = true) {jobs : List Job}
    (ha : ∀ job ∈ jobs, Awaits document job) (hr : ¬ ∀ job ∈ jobs, Resolvable document job)
    (h : Holds document s) :
    ∃ chain after, runAll config mode jobs s = (.error (.circularTemplate chain), after) ∧
      after.host = s.host := by
  induction jobs generalizing s with
  | nil => exact absurd nofun hr
  | cons job rest ih =>
    obtain ⟨haj, har⟩ := List.forall_mem_cons.1 ha
    by_cases hrj : Resolvable document job
    · obtain ⟨next, hn, hadv, -⟩ := runJob_advances mode hi h haj hrj
      have hrest : ¬ ∀ job ∈ rest, Resolvable document job := fun hall =>
        hr (List.forall_mem_cons.2 ⟨hrj, hall⟩)
      obtain ⟨chain, after, he, hh⟩ := ih har hrest (h.advances hadv)
      refine ⟨chain, after, ?_, hh.trans hadv.host⟩
      rw [runAll, hn]
      exact he
    · obtain ⟨chain, after, he, hh⟩ := runJob_error mode hi h haj hrj
      exact ⟨chain, after, by rw [runAll, he], hh⟩

/-- Jobs that leave no template behind have filled the document, or met a circle. -/
theorem runAll_interpolation (mode : Mode) (hi : config.interpolate = true) {jobs : List Job}
    (ha : ∀ job ∈ jobs, Awaits document job) (hs : s.root = rootOf document)
    (hall : ∀ later, Settled document later → (∀ job ∈ jobs, Done (rootOf later) job) →
      later.hasTemplate = false) :
    ((∀ t ∈ document.templates, Ready document t) →
      ∃ after, runAll config mode jobs s = (.ok (), after) ∧ after.host = s.host ∧
        after.root = rootOf (document.fill (textOf document.get?))) ∧
    ((¬ ∀ t ∈ document.templates, Ready document t) →
      ∃ chain after, runAll config mode jobs s = (.error (.circularTemplate chain), after) ∧
        after.host = s.host) := by
  by_cases hr : ∀ job ∈ jobs, Resolvable document job
  · obtain ⟨after, he, hadv, hdone⟩ := runAll_advances mode hi ha hr (holds_of_root hs)
    obtain ⟨later, hroot, hsettled⟩ := (holds_of_root hs).advances hadv
    have hnone : later.hasTemplate = false := hall later hsettled fun job hm => hroot ▸ hdone job hm
    constructor
    · intro _
      exact ⟨after, he, hadv.host, by rw [hroot, hsettled.eq_fill hnone]⟩
    · intro hnot
      apply absurd _ hnot
      intro t ht
      -- Whatever has given way to its text was ready, and nothing has been left.
      apply (hsettled.templates.2 t ht).resolve_left
      intro hm
      rw [(hasTemplate_eq_false_iff later).1 hnone] at hm
      cases hm
  · constructor
    · intro hready
      apply absurd _ hr
      intro job hm
      have haj := ha job hm
      cases job with
      | interpolate target t => exact hready t (mem_templates_of_awaits haj)
      | sweep => exact hready
      | directives target calls => exact haj.elim
    · intro _
      exact runAll_error mode hi ha hr (holds_of_root hs)

end ConfigDoc.Session
