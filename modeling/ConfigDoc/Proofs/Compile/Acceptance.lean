import ConfigDoc.Proofs.Draft.Acceptance
import ConfigDoc.Proofs.Session.Drain

namespace ConfigDoc.Config
open Session

variable {σ : Type}

/-- A tree is written exactly if its root is a block or a map and no call stands in the place of a
value, outside the arguments of calls. Any other tree is refused for a node before anything has been
done. No tree, whatever keys it repeats, brings about a reference to a slot that is not there: an
error at the start is never that of a step from slot to slot or of a write. -/
theorem runTree_acceptance (config : Config σ) (mode : Mode) (tree : Tree) (host : σ) :
    ((∃ draft, Draft.ofTree config.interpolate tree = .ok draft) ↔ tree.Acceptable) ∧
    (¬ tree.Acceptable →
      config.compileTree mode tree host = (.error (.invalidNode tree.refusedKind), host) ∧
        (config.runTree mode tree host).2.journal = []) ∧
    (∀ path message, Draft.ofTree config.interpolate tree ≠ .error (.invalidReference path message)) ∧
    ∀ e, Draft.ofTree config.interpolate tree = .error e → ∀ (r : Reference) (root : Value),
      (∀ name, r.child root name ≠ .error e) ∧ (∀ position, r.index root position ≠ .error e) ∧
        ∀ v, r.set root v ≠ .error e := by
  refine ⟨Draft.ofTree_isOk_iff, fun hn => ?_, fun path message h => ?_, fun e h r root => ?_⟩
  · cases hd : Draft.ofTree config.interpolate tree with
    | ok draft => exact absurd (Draft.ofTree_isOk_iff.1 ⟨draft, hd⟩) hn
    | error e =>
      cases Draft.error_of_ofTree hd
      rw [compileTree, runTree_of_error config mode host hd]
      exact ⟨rfl, rfl⟩
  · cases Draft.error_of_ofTree h
  · cases Draft.error_of_ofTree h
    refine ⟨fun name hc => ?_, fun position hi => ?_, fun v hs => ?_⟩
    · obtain ⟨fault, hf⟩ := Reference.error_of_new hc
      cases hf
    · obtain ⟨fault, hf⟩ := Reference.error_of_new hi
      cases hf
    · obtain ⟨fault, hf⟩ := Reference.error_of_replace hs
      cases hf

end ConfigDoc.Config
