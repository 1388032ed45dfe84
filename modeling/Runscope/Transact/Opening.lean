import Mathlib.Data.List.Induction
import Runscope.Transact.Regime
import Runscope.Transact.Writing

/-!
Sessions that begin by reading something.

What a session may do can depend on the inputs that its first statement drew, a
reading of the clock for instance. From that statement on the session is
`Sound` for the needs that belong to these inputs, and among all others it
stays so.
-/

namespace Transact

variable {K S Row Write Call Input Exc Point : Type} {sys : System K S Row Write Call Input Exc Point}
  {I : S → Prop} {C : K → Contract S Row Write Call Input Point}
  {need : Input → Stmt S Row Write Call → Session Row Write Call Input → S → Prop}

/-- The first statement of session `j` drew the inputs `i`. -/
def Begins (as : List (Action K Input)) (j : ℕ) (i : Input) : Prop :=
  ∃ as₁ as₂, as = as₁ ++ .run j i :: as₂ ∧ ∀ i', .run j i' ∉ as₁

theorem Begins.snoc {as : List (Action K Input)} {j : ℕ} {i : Input} (h : Begins as j i)
    (a : Action K Input) : Begins (as ++ [a]) j i := by
  obtain ⟨as₁, as₂, rfl, hfirst⟩ := h
  exact ⟨as₁, as₂ ++ [a], by simp, hfirst⟩

/-- Where a session stands that has its needs from the inputs of its first
statement: before that statement, at its end, or past the statement, which was
one of `as`. -/
inductive Opened (sys : System K S Row Write Call Input Exc Point)
    (need : Input → Stmt S Row Write Call → Session Row Write Call Input → S → Prop)
    (as : List (Action K Input)) (j : ℕ) (q : Proc K S Row Write Call Input Exc Point) (s : S) : Prop
  | fresh (hprog : q.prog = sys.code q.kind) (hsession : q.session = .fresh)
      (hnone : ∀ i, .run j i ∉ as) : Opened sys need as j q s
  | ended (h : q.prog.point? = none) : Opened sys need as j q s
  | opened (i : Input) (hbegins : Begins as j i)
      (h : Sound sys.storage (fun _ => True) (.asking (need i) : Contract S Row Write Call Input Point)
        (fun _ _ _ => True) q.prog q.session s) : Opened sys need as j q s

namespace Opened

variable {as : List (Action K Input)} {a : Action K Input} {j : ℕ}
  {q : Proc K S Row Write Call Input Exc Point}

theorem snoc {s : S} (h : Opened sys need as j q s) (ha : ∀ i, a ≠ .run j i) :
    Opened sys need (as ++ [a]) j q s := by
  cases h with
  | fresh hprog hsession hnone =>
      refine .fresh hprog hsession fun i hmem => ?_
      rcases List.mem_append.mp hmem with hmem | hmem
      · exact hnone i hmem
      · exact ha i (List.mem_singleton.mp hmem).symm
  | ended h => exact .ended h
  | opened i hbegins h => exact .opened i (hbegins.snoc a) h

/-- What another session does makes no difference. -/
theorem interfered {s s' : S} (h : Opened sys need as j q s)
    (hs : ∀ pt, q.prog.point? = some pt → Interferes sys.storage I (C q.kind) pt q.session s s') :
    Opened sys need as j q s' := by
  cases h with
  | fresh hprog hsession hnone => exact .fresh hprog hsession hnone
  | ended h => exact .ended h
  | opened i hbegins h =>
      cases hpt : q.prog.point? with
      | none => exact .ended hpt
      | some pt =>
          obtain ⟨-, -, hlocked, howned, haccepted⟩ := hs pt hpt
          exact .opened i hbegins (h.stable hpt ⟨trivial, trivial, hlocked, howned, haccepted⟩)

end Opened

section Worlds

variable [DecidableEq Row] {w w' : World K S Row Write Call Input Exc Point}

theorem World.exec_concat {as : List (Action K Input)} {a : Action K Input}
    (h : w.exec sys (as ++ [a]) = some w') :
    ∃ w₁, w.exec sys as = some w₁ ∧ w₁.step sys a = some w' := by
  induction as generalizing w with
  | nil =>
      refine ⟨w, rfl, ?_⟩
      simp only [List.nil_append, World.exec] at h
      cases hstep : w.step sys a with
      | none => simp [hstep] at h
      | some w₁ => simpa [hstep] using h
  | cons b as ih =>
      simp only [List.cons_append, World.exec] at h ⊢
      cases hstep : w.step sys b with
      | none => simp [hstep] at h
      | some w₁ =>
          simp only [hstep] at h ⊢
          exact ih h

/-- Only sessions that exist have run. -/
theorem World.lt_of_run {as : List (Action K Input)} (h : w.exec sys as = some w') {j : ℕ}
    {i : Input} (hmem : .run j i ∈ as) : j < w'.procs.length := by
  induction as using List.reverseRecOn generalizing w' with
  | nil => cases hmem
  | append_singleton as a ih =>
      obtain ⟨w₁, hexec, hstep⟩ := World.exec_concat h
      have hbefore (hold : .run j i ∈ as) : j < w₁.procs.length := ih hexec hold
      rcases World.step_cases hstep with ⟨k, rfl, -, rfl⟩ |
        ⟨pid, i', p, prog, t, s, rfl, hp, -, rfl⟩ | ⟨pid, p, prog, rfl, -, -, rfl⟩ |
        ⟨pid, p, rfl, -, rfl⟩
      · have hlt := hbefore (by simpa using hmem)
        rw [List.length_append]
        exact Nat.lt_add_right _ hlt
      · rw [List.length_set]
        rcases List.mem_append.mp hmem with hold | hlast
        · exact hbefore hold
        · obtain ⟨rfl, -⟩ : j = pid ∧ i = i' := by simpa using hlast
          exact (List.getElem?_eq_some_iff.mp hp).1
      · rw [List.length_set]
        exact hbefore (by simpa using hmem)
      · rw [List.length_set]
        exact hbefore (by simpa using hmem)

variable {κ : K} (hcompat : Compatible sys I C fun _ _ _ => True)
  (hcall : (sys.code κ).fault sys.storage = none)
  (hfirst : ∀ free i prog t s s', I s → (sys.code κ).exec sys.storage free i .fresh s =
    some (prog, t, s') → Sound sys.storage (fun _ => True)
      (.asking (need i) : Contract S Row Write Call Input Point) (fun _ _ _ => True) prog t s')

include hcompat hcall hfirst in
theorem World.Ok.opened_step (h : w.Ok sys I C) {a : Action K Input}
    (hstep : w.step sys a = some w') {as : List (Action K Input)}
    (hruns : ∀ j i, .run j i ∈ as → j < w.procs.length)
    (hopened : ∀ (j : ℕ) q, w.procs[j]? = some q → q.kind = κ → Opened sys need as j q w.state)
    {j : ℕ} {q : Proc K S Row Write Call Input Exc Point} (hq : w'.procs[j]? = some q)
    (hκ : q.kind = κ) : Opened sys need (as ++ [a]) j q w'.state := by
  have hother {pid : ℕ} {p : Proc K S Row Write Call Input Exc Point}
      (hset : (w.procs.set pid p)[j]? = some q) (hne : j ≠ pid) (hrun : ∀ i, a ≠ .run j i) :
      Opened sys need (as ++ [a]) j q w'.state := by
    rw [List.getElem?_set_ne (Ne.symm hne)] at hset
    exact ((hopened j q hset hκ).interfered (I := I) (C := C) fun pt hpt =>
      h.interferes hcompat hstep trivial hset hpt hrun).snoc hrun
  rcases World.step_cases hstep with ⟨k, rfl, -, rfl⟩ |
    ⟨pid, i, p, prog, t, s, rfl, hp, hexec, rfl⟩ | ⟨pid, p, prog, rfl, hp, hfault, rfl⟩ |
    ⟨pid, p, rfl, hp, rfl⟩
  · by_cases hlt : j < w.procs.length
    · rw [List.getElem?_append_left hlt] at hq
      exact (hopened j q hq hκ).snoc fun i heq => by cases heq
    · rw [List.getElem?_append_right (not_lt.mp hlt), List.getElem?_singleton,
        Option.ite_none_right_eq_some] at hq
      obtain rfl := Option.some.inj hq.2
      refine .fresh rfl rfl fun i hmem => hlt (hruns j i ?_)
      simpa using hmem
  · by_cases hj : j = pid
    · subst hj
      rw [List.getElem?_set_self (List.getElem?_eq_some_iff.mp hp).1] at hq
      obtain rfl := Option.some.inj hq
      obtain ⟨pt, hpt⟩ := Prog.point?_of_exec hexec
      cases hopened j p hp hκ with
      | fresh hprog hsession hnone =>
          rw [hprog, hsession] at hexec
          obtain rfl : p.kind = κ := hκ
          exact .opened i ⟨as, [], rfl, hnone⟩ (hfirst _ i _ _ _ _ h.inv hexec)
      | ended hover =>
          rw [hover] at hpt
          cases hpt
      | opened i' hbegins hsound =>
          obtain ⟨-, -, -, -, hsound', -, -⟩ := hsound.exec hpt trivial (h.owned j p hp)
            (h.accepted j p hp) hexec
          exact .opened i' (hbegins.snoc _) hsound'
    · exact hother hq hj fun i' heq => hj (by cases heq; rfl)
  · by_cases hj : j = pid
    · subst hj
      rw [List.getElem?_set_self (List.getElem?_eq_some_iff.mp hp).1] at hq
      obtain rfl := Option.some.inj hq
      cases hopened j p hp hκ with
      | fresh hprog =>
          obtain rfl : p.kind = κ := hκ
          rw [hprog, hcall] at hfault
          cases hfault
      | ended hover => cases hprog : p.prog <;> simp [hprog, Prog.fault] at hover hfault
      | opened i hbegins hsound =>
          exact .opened i (hbegins.snoc _)
            (hsound.fault trivial (h.owned j p hp) (h.accepted j p hp) hfault)
    · exact hother hq hj fun i' heq => by cases heq
  · by_cases hj : j = pid
    · subst hj
      rw [List.getElem?_set_self (List.getElem?_eq_some_iff.mp hp).1] at hq
      obtain rfl := Option.some.inj hq
      exact .ended rfl
    · exact hother hq hj fun i' heq => by cases heq

include hcompat hcall hfirst in
/-- Every session of the kind keeps to what the inputs of its first statement
ask of it. -/
theorem World.opened (hcode : ∀ k s, I s → sys.admits k s →
      Sound sys.storage I (C k) (fun _ _ _ => True) (sys.code k) .fresh s) {s₀ : S} (hs₀ : I s₀)
    {as : List (Action K Input)} (hexec : (World.initial s₀).exec sys as = some w) {j : ℕ}
    {q : Proc K S Row Write Call Input Exc Point} (hq : w.procs[j]? = some q) (hκ : q.kind = κ) :
    Opened sys need as j q w.state := by
  induction as using List.reverseRecOn generalizing w j q with
  | nil =>
      obtain rfl := Option.some.inj hexec
      simp [World.initial] at hq
  | append_singleton as a ih =>
      obtain ⟨w₁, hexec₁, hstep⟩ := World.exec_concat hexec
      have hok := Reach.ok hcode hcompat hs₀ (Reach.refl.of_exec hexec₁)
      exact hok.opened_step hcompat hcall hfirst hstep (fun j i => World.lt_of_run hexec₁)
        (fun j q hq hκ => ih hexec₁ hq hκ) hq hκ

end Worlds

end Transact
