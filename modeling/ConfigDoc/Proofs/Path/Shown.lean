import ConfigDoc.Action
import ConfigDoc.Proofs.Path.Spelling
import ConfigDoc.Proofs.Token.Spelling
import ConfigDoc.Proofs.Value.Slots

/-! The readable paths of references: what a reference shows as its path is read as the way to
it. -/

namespace ConfigDoc

/-- Whether a step can be told in a readable path: a name that is not empty and has neither a dot
nor an opening bracket in it, or a position that fits a machine word. -/
def Segment.Legible : Segment → Prop
  | .key name => name ≠ "" ∧ '.' ∉ name.toList ∧ '[' ∉ name.toList
  | .index position => position < Path.positionBound

/-- A name of the language is legible. -/
theorem Segment.legible_of_isName {cs : List Char} (h : Token.IsName cs) :
    (Segment.key (String.ofList cs)).Legible := by
  obtain ⟨c, rest, rfl, hc, hr⟩ := h
  have hall : ∀ d ∈ c :: rest, Token.isNameChar d = true :=
    List.forall_mem_cons.2 ⟨Token.isNameChar_of_startsName hc, hr⟩
  refine ⟨fun he => ?_, fun hm => ?_, fun hm => ?_⟩
  · have hnil := congrArg String.toList he
    rw [String.toList_ofList] at hnil
    cases hnil
  · rw [String.toList_ofList] at hm
    exact absurd (hall _ hm) (by decide)
  · rw [String.toList_ofList] at hm
    exact absurd (hall _ hm) (by decide)

namespace Path

def Spelling.ofSegment : Segment → Spelling
  | .key name => .dotted name
  | .index position => .index position

theorem Spelling.segment_ofSegment (step : Segment) : (ofSegment step).segment = step := by
  cases step <;> rfl

theorem Spelling.allowed_ofSegment {step : Segment} (h : step.Legible) :
    (ofSegment step).Allowed := by
  cases step with
  | key name => exact h
  | index position => trivial

/-- One more step adds its spelling to a path text that is not empty. -/
theorem below_eq {base : String} (hb : base ≠ "") (step : Segment) :
    step.below base = base ++ String.ofList ((Spelling.ofSegment step).chars false) := by
  cases step with
  | key name =>
    rw [Segment.below, if_neg hb, ← String.toList_inj]
    simp [Spelling.ofSegment, Spelling.chars]
  | index position =>
    rw [Segment.below, ← String.toList_inj]
    simp [Spelling.ofSegment, Spelling.chars]

theorem textBelow_eq {base : String} (hb : base ≠ "") (path : Path) :
    path.textBelow base =
      base ++ String.ofList (path.flatMap fun step => (Spelling.ofSegment step).chars false) := by
  induction path generalizing base with
  | nil => simp [textBelow]
  | cons step rest ih =>
    have hn : step.below base ≠ "" := by
      rw [below_eq hb]
      simp [hb]
    rw [textBelow, List.foldl_cons, ← textBelow, ih hn, below_eq hb]
    simp [String.append_assoc]

/-- A path of legible steps that starts with a name is read as it was shown. -/
theorem ofText_textBelow {name : String} {rest : Path}
    (h : ∀ step ∈ Segment.key name :: rest, step.Legible) :
    ofText (textBelow "" (.key name :: rest)) = .key name :: rest := by
  let spellings := (Segment.key name :: rest).map Spelling.ofSegment
  have hsegments : spellings.map Spelling.segment = .key name :: rest := by
    simp [spellings, Function.comp_def, Spelling.segment_ofSegment]
  have hwritten : textBelow "" (.key name :: rest) = written spellings := by
    have hn : name ≠ "" := (h _ List.mem_cons_self).1
    have hfirst : (Segment.key name).below "" = name := by rw [Segment.below, if_pos rfl]
    rw [textBelow, List.foldl_cons, ← textBelow, hfirst, textBelow_eq hn, ← String.toList_inj]
    simp [spellings, written, Spelling.ofSegment, Spelling.chars, List.flatMap_map]
  have hallowed : ∀ s ∈ spellings, s.Allowed := by
    intro s hs
    obtain ⟨step, hm, rfl⟩ := List.mem_map.1 hs
    exact Spelling.allowed_ofSegment (h step hm)
  have hpositions : ∀ position, .index position ∈ spellings.map Spelling.segment →
      position < positionBound := by
    intro position hm
    rw [hsegments] at hm
    exact h _ hm
  rw [hwritten, ofText_of_allowed hallowed hpositions, hsegments]

end Path

namespace Reference

/-- Whether a reference is made from that of the whole document step by step down, each step legible
and taken in a state of the tree of its own. -/
inductive Reached : Reference → Prop where
  | document : Reached document
  | child {r r' : Reference} {root : Value} {name : String} (h : Reached r)
      (hn : (Segment.key name).Legible) (hr : r.child root name = .ok r') : Reached r'
  | index {r r' : Reference} {root : Value} {position : Nat} (h : Reached r)
      (hp : (Segment.index position).Legible) (hr : r.index root position = .ok r') : Reached r'

variable {r r' other : Reference} {root : Value} {step : Segment}

/-- A step down goes to the slot of the step inside the slot, in whatever state it is taken. -/
theorem eq_of_descend (h : r.descend root step = .ok r') :
    r' = ⟨r.location, step, step.below r.path⟩ := by
  rw [descend, new] at h
  split at h
  · cases h
  · split at h
    · cases h
      rfl
    · cases h

structure Shown (r : Reference) : Prop where
  legible : ∀ step ∈ r.location, step.Legible
  path : r.path = r.location.textBelow ""
  document : ∃ rest, r.location = .key documentName :: rest

theorem Shown.descend (h : r.Shown) (hs : step.Legible) (hr : r.descend root step = .ok r') :
    r'.Shown := by
  cases eq_of_descend hr
  constructor
  · intro other hm
    rcases List.mem_append.1 hm with hm | hm
    · exact h.legible other hm
    · cases List.mem_singleton.1 hm
      exact hs
  · change step.below r.path = List.foldl Segment.below "" (r.location ++ [step])
    rw [List.foldl_append, h.path]
    rfl
  · obtain ⟨rest, he⟩ := h.document
    exact ⟨rest ++ [step], by rw [location, he, List.cons_append]⟩

theorem Reached.shown (h : r.Reached) : r.Shown := by
  induction h with
  | document =>
    refine ⟨fun step hm => ?_, rfl, [], rfl⟩
    cases List.mem_singleton.1 hm
    exact ⟨by decide, by decide, by decide⟩
  | child h hn hr ih => exact ih.descend hn hr
  | index h hp hr ih => exact ih.descend hp hr

theorem Shown.ofText_path (h : r.Shown) : Path.ofText r.path = r.location := by
  obtain ⟨rest, he⟩ := h.document
  have hl := h.legible
  rw [he] at hl
  rw [h.path, he, Path.ofText_textBelow hl]

/-- The path text of a reference made by legible steps is read as the way from the root to its
container and on to its slot. So whatever host code is applied to and whatever the tree is by then,
it finds at that path what the reference gives, and no other slot has the same path text. -/
theorem ofText_path_of_reached (r : Reference) (h : r.Reached) :
    Path.ofText r.path = r.container ++ [r.key] ∧
    (∀ {σ : Type} (node : Reference) (root : Value) (state : σ),
      (Action.get? r.path).run node root state = (.ok (r.get? root), root, state)) ∧
    (∀ other : Reference, other.Reached → other.path = r.path →
      other.container = r.container ∧ other.key = r.key) ∧
    ∀ cs, Token.IsName cs → (Segment.key (String.ofList cs)).Legible := by
  have hread : Path.ofText r.path = r.location := h.shown.ofText_path
  refine ⟨hread, fun node root state => ?_, fun other ho he => ?_,
    fun cs => Segment.legible_of_isName⟩
  · have hget : root.get? r.path = r.get? root := by
      rw [Value.get?, hread, get?_eq_lookup?]
    rw [Action.get?, Action.run, Action.run, hget]
  · have hlocation : other.location = r.location := by
      rw [← hread, ← he, ho.shown.ofText_path]
    obtain ⟨hcontainer, hkey⟩ := List.append_inj' hlocation rfl
    exact ⟨hcontainer, (List.cons.inj hkey).1⟩

/-- The first item of a list inside the document. -/
theorem ofText_path_item : ∃ r : Reference, r.Reached ∧ r.path = "document.hosts[0]" ∧
    Path.ofText r.path = [.key "document", .key "hosts", .index 0] := by
  let root : Value := .object [("document", .object [("hosts", .array [.null])])]
  have hhosts : Reached ⟨[.key "document"], .key "hosts", "document.hosts"⟩ :=
    .child .document ⟨by decide, by decide, by decide⟩
      (show document.child root "hosts" = _ from rfl)
  have hitem : Reached ⟨[.key "document", .key "hosts"], .index 0, "document.hosts[0]"⟩ :=
    .index hhosts (show 0 < Path.positionBound by decide)
      (show Reference.index _ root 0 = _ from rfl)
  exact ⟨_, hitem, rfl, (ofText_path_of_reached _ hitem).1⟩

end Reference

end ConfigDoc
