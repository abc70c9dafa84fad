import ConfigDoc.Session.Basic

namespace ConfigDoc.Session

variable {σ : Type}

def drainFrom (config : Config σ) (mode : Mode) (stage : Stage) (cursor : Nat) (s : Session σ) :
    Except Error Unit × Session σ :=
  match _taken : s.queue.next stage cursor with
  | (none, queue, _) => (.ok (), { s with queue := queue })
  | (some job, queue, cursor') =>
    match _ran : runJob config mode job { s with queue := queue } with
    | (.error e, after) => (.error e, after)
    | (.ok (), after) => drainFrom config mode stage cursor' after
termination_by s.queue.tasks.length - cursor
decreasing_by
  have hq := queue_runJob config mode job { s with queue := queue }
  have hn := Queue.next_eq_some _taken
  rw [_ran] at hq
  simp only at hq
  rw [hq]
  omega

def drain (config : Config σ) (mode : Mode) (stage : Stage) (s : Session σ) :
    Except Error Unit × Session σ :=
  drainFrom config mode stage 0 (s.record (.pass stage))

def drainAll (config : Config σ) (mode : Mode) :
    List Stage → Session σ → Except Error Unit × Session σ
  | [], s => (.ok (), s)
  | stage :: rest, s =>
    match drain config mode stage s with
    | (.error e, after) => (.error e, after)
    | (.ok (), after) => drainAll config mode rest after

/-- Templates are resolved before the directives run, and once more after them. -/
def passes : List Stage := [.interpolation, .directives, .interpolation]

def ofDraft (host : σ) (d : Draft) : Session σ := ⟨d.root, d.queue, host, []⟩

def document (s : Session σ) : Value := (Reference.document.get? s.root).getD Value.empty

end ConfigDoc.Session
