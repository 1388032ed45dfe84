import Runscope.Transact.Turn

/-!
Programs that only read.

On a database that nobody else changes such a program has an answer, whatever
its statements draw from outside. The rules compute the answer statement by
statement.
-/

namespace Transact

variable {S Row Write Call Input Exc Point α β : Type}

/-- On a database in the state `s` the program ends with the outcome, and has
written nothing. -/
def Prog.Answers (σ : Storage S Row Write Call Input Exc) (s : S)
    (p : Prog S Row Write Call Input Exc Point α) (outcome : Except Exc α) : Prop :=
  ∀ (env : Surroundings S Row Write Call Input) (r : Turn S Row Write Call Input), env.Steady →
    r.state = s → r.session.writes = [] →
    p.Leads σ env r fun x r' => x = outcome ∧ r'.state = s ∧ r'.session.writes = []

namespace Prog.Answers

variable {σ : Storage S Row Write Call Input Exc} {s : S} {pt : Point}

theorem ret (a : α) : (Prog.ret a : Prog S Row Write Call Input Exc Point α).Answers σ s (.ok a) :=
  fun _ _ _ hstate hwrites => Leads.ret ⟨rfl, hstate, hwrites⟩

theorem raise (e : Exc) :
    (Prog.raise e : Prog S Row Write Call Input Exc Point α).Answers σ s (.error e) :=
  fun _ _ _ hstate hwrites => Leads.raise ⟨rfl, hstate, hwrites⟩

theorem ofExcept (outcome : Except Exc α) :
    (Prog.ofExcept outcome : Prog S Row Write Call Input Exc Point α).Answers σ s outcome := by
  cases outcome with
  | ok a => exact ret a
  | error e => exact raise e

theorem bind {p : Prog S Row Write Call Input Exc Point β} {b : β}
    {k : β → Prog S Row Write Call Input Exc Point α} {outcome : Except Exc α}
    (h : p.Answers σ s (.ok b)) (hk : (k b).Answers σ s outcome) :
    (p.bind k).Answers σ s outcome := by
  intro env r hsteady hstate hwrites
  apply Leads.bind
  apply (h env r hsteady hstate hwrites).mono
  rintro _ r' ⟨rfl, hstate', hwrites'⟩
  exact hk env r' hsteady hstate' hwrites'

/-- What the first program raises, the whole raises. -/
theorem bind_error {p : Prog S Row Write Call Input Exc Point β} {e : Exc}
    {k : β → Prog S Row Write Call Input Exc Point α} (h : p.Answers σ s (.error e)) :
    (p.bind k).Answers σ s (.error e) := by
  intro env r hsteady hstate hwrites
  apply Leads.bind
  apply (h env r hsteady hstate hwrites).mono
  rintro _ r' ⟨rfl, hrest⟩
  exact ⟨rfl, hrest⟩

/-- A query sees the state. -/
theorem select (query : S → α) :
    (Prog.stmt pt .select fun reply => query reply.view :
      Prog S Row Write Call Input Exc Point α).Answers σ s (.ok (query s)) := by
  intro env r hsteady hstate hwrites
  have hview : r.view σ = s := by
    rw [Turn.view, Session.view, hwrites, hstate]
    rfl
  refine Leads.select (fun hlost => ?_) fun i => ⟨by rw [hview], hstate, hwrites⟩
  rw [hsteady] at hlost
  cases hlost

/-- There is one answer. -/
theorem unique [Nonempty Input] {p : Prog S Row Write Call Input Exc Point α}
    {outcome outcome' : Except Exc α} (h : p.Answers σ s outcome) (h' : p.Answers σ s outcome') :
    outcome = outcome' := by
  obtain ⟨i⟩ := ‹Nonempty Input›
  let env : Surroundings S Row Write Call Input := ⟨fun _ _ => i, fun _ _ => false⟩
  have hsteady : env.Steady := fun _ _ => rfl
  have hfirst := h env (.start s) hsteady rfl rfl
  have hsecond := h' env (.start s) hsteady rfl rfl
  exact hfirst.1.symm.trans hsecond.1

end Prog.Answers

end Transact
