import Runscope.Transact.Records

/-!
Invariants that single writes keep.

If a property of states is kept by every write that satisfies `P`, it is enough
that each session flushes only such writes as long as everything it reads has
the property: the property then holds of every committed state and of what
every session sees, whatever the order of steps.
-/

namespace Transact

variable {K S Row Write Call Input Exc Point α β : Type}

/-- As long as what it reads satisfies `good`, the program flushes only writes
that satisfy `P` and returns only what satisfies `Q`. -/
def Prog.Writes (good : S → Prop) (P : Write → Prop) (Q : α → Prop) :
    Prog S Row Write Call Input Exc Point α → Prop
  | .ret a => Q a
  | .raise _ => True
  | .step _ st next => (∀ ws, st = .flush ws → ∀ w ∈ ws, P w) ∧
      (∀ e, (next (.error e)).Writes good P Q) ∧
      ∀ reply, good reply.view → (next (.ok reply)).Writes good P Q

namespace Prog.Writes

variable {good : S → Prop} {P : Write → Prop} {Q : α → Prop} {pt : Point}

theorem mono {Q' : α → Prop} (hQ : ∀ a, Q a → Q' a) {p : Prog S Row Write Call Input Exc Point α}
    (h : p.Writes good P Q) : p.Writes good P Q' := by
  induction p with
  | ret a => exact hQ a h
  | raise e => exact trivial
  | step pt st next ih =>
      obtain ⟨hflush, herror, hok⟩ := h
      exact ⟨hflush, fun e => ih _ (herror e), fun reply hreply => ih _ (hok reply hreply)⟩

theorem andThen {p : Prog S Row Write Call Input Exc Point β}
    {k : Except Exc β → Prog S Row Write Call Input Exc Point α} {R : β → Prop}
    (h : p.Writes good P R) (herror : ∀ e, (k (.error e)).Writes good P Q)
    (hok : ∀ b, R b → (k (.ok b)).Writes good P Q) : (p.andThen k).Writes good P Q := by
  induction p with
  | ret a => exact hok a h
  | raise e => exact herror e
  | step pt st next ih =>
      obtain ⟨hflush, herror', hok'⟩ := h
      exact ⟨hflush, fun e => ih _ (herror' e), fun reply hreply => ih _ (hok' reply hreply)⟩

theorem bind {p : Prog S Row Write Call Input Exc Point β}
    {k : β → Prog S Row Write Call Input Exc Point α} {R : β → Prop} (h : p.Writes good P R)
    (hk : ∀ b, R b → (k b).Writes good P Q) : (p.bind k).Writes good P Q :=
  h.andThen (fun _ => trivial) hk

theorem tryCatch {p : Prog S Row Write Call Input Exc Point α}
    {handler : Exc → Prog S Row Write Call Input Exc Point α} (h : p.Writes good P Q)
    (hhandler : ∀ e, (handler e).Writes good P Q) : (p.tryCatch handler).Writes good P Q :=
  h.andThen hhandler fun _ => id

/-- A statement that is not a flush. -/
theorem stmt {st : Stmt S Row Write Call} {f : Reply S Row Input → α}
    (hst : ∀ ws, st = .flush ws → ∀ w ∈ ws, P w) (hQ : ∀ reply, good reply.view → Q (f reply)) :
    (Prog.stmt pt st f : Prog S Row Write Call Input Exc Point α).Writes good P Q :=
  ⟨hst, fun _ => trivial, hQ⟩

theorem flush {ws : List Write} {f : Reply S Row Input → α} (hws : ∀ w ∈ ws, P w)
    (hQ : ∀ reply, Q (f reply)) :
    (Prog.stmt pt (.flush ws) f : Prog S Row Write Call Input Exc Point α).Writes good P Q :=
  stmt (fun _ h => by cases h; exact hws) fun reply _ => hQ reply

theorem ofExcept {x : Except Exc α} (h : ∀ a, x = .ok a → Q a) :
    (Prog.ofExcept x : Prog S Row Write Call Input Exc Point α).Writes good P Q := by
  cases x with
  | ok a => exact h a rfl
  | error e => exact trivial

end Prog.Writes

section Worlds

variable {w w' : World K S Row Write Call Input Exc Point} {good : S → Prop} {P : Write → Prop}

/-- Everything committed and everything flushed has the property. -/
structure World.Good (good : S → Prop) (P : Write → Prop)
    (w : World K S Row Write Call Input Exc Point) : Prop where
  state : good w.state
  writes : ∀ q ∈ w.procs, ∀ x ∈ q.session.writes, P x
  prog : ∀ q ∈ w.procs, q.prog.Writes good P fun _ => True

theorem good_applyAll {σ : Storage S Row Write Call Input Exc}
    (happly : ∀ x s, P x → good s → good (σ.apply x s)) {ws : List Write} (hws : ∀ x ∈ ws, P x)
    {s : S} (hs : good s) : good (σ.applyAll s ws) := by
  induction ws generalizing s with
  | nil => exact hs
  | cons x ws ih =>
      exact ih (fun y hy => hws y (by simp [hy])) (happly x s (hws x (by simp)) hs)

/-- One session takes a step. -/
theorem World.Good.set (h : w.Good good P) {pid : ℕ} {q : Proc K S Row Write Call Input Exc Point}
    {s : S} (hs : good s) (hwrites : ∀ x ∈ q.session.writes, P x)
    (hprog : q.prog.Writes good P fun _ => True) : World.Good good P ⟨s, w.procs.set pid q⟩ where
  state := hs
  writes q' hq' := by
    rcases List.mem_or_eq_of_mem_set hq' with hq' | rfl
    · exact h.writes q' hq'
    · exact hwrites
  prog q' hq' := by
    rcases List.mem_or_eq_of_mem_set hq' with hq' | rfl
    · exact h.prog q' hq'
    · exact hprog

/-- What one statement of a session leaves. -/
theorem Prog.Writes.exec {σ : Storage S Row Write Call Input Exc}
    (hstamp : ∀ i x, P x → P (σ.stamp i x))
    (happly : ∀ x s, P x → good s → good (σ.apply x s))
    (hperform : ∀ c i s, good s → good (σ.perform c i s))
    {p p' : Prog S Row Write Call Input Exc Point α} {i : Input} {Q : α → Prop}
    {free : Row → Bool} {t t' : Session Row Write Call Input} {s s' : S}
    (h : p.Writes good P Q) (hs : good s) (hwrites : ∀ x ∈ t.writes, P x)
    (hexec : p.exec σ free i t s = some (p', t', s')) :
    good s' ∧ (∀ x ∈ t'.writes, P x) ∧ p'.Writes good P Q := by
  have hview (s : S) (hs : good s) : good (t.view σ s) := good_applyAll happly hwrites hs
  cases p with
  | ret a => simp [Prog.exec] at hexec
  | raise e => simp [Prog.exec] at hexec
  | step pt st next =>
      obtain ⟨hflush, herror, hok⟩ := h
      cases st with
      | select =>
          simp only [Prog.exec, Option.some.injEq, Prod.mk.injEq] at hexec
          obtain ⟨rfl, rfl, rfl⟩ := hexec
          exact ⟨hs, hwrites, hok _ (hview s hs)⟩
      | lock skip rows =>
          simp only [Prog.exec, Option.ite_none_right_eq_some, Option.some.injEq,
            Prod.mk.injEq] at hexec
          obtain ⟨-, rfl, rfl, rfl⟩ := hexec
          exact ⟨hs, hwrites, hok _ (hview s hs)⟩
      | flush ws =>
          simp only [Prog.exec, Option.ite_none_right_eq_some] at hexec
          obtain ⟨-, hexec⟩ := hexec
          have hstamped : ∀ x ∈ t.stamped σ i ws, P x := by
            intro x hx
            obtain ⟨y, hy, rfl⟩ := List.mem_map.mp hx
            exact hstamp _ y (hflush ws rfl y hy)
          cases herr : σ.firstError (t.view σ s) (t.stamped σ i ws) with
          | some e =>
              simp only [herr, Option.some.injEq, Prod.mk.injEq] at hexec
              obtain ⟨rfl, rfl, rfl⟩ := hexec
              exact ⟨hs, by simp, herror e⟩
          | none =>
              simp only [herr, Option.some.injEq, Prod.mk.injEq] at hexec
              obtain ⟨rfl, rfl, rfl⟩ := hexec
              refine ⟨hs, fun x hx => ?_, hok _ (good_applyAll happly hstamped (hview s hs))⟩
              rcases List.mem_append.mp hx with hx | hx
              · exact hwrites x hx
              · exact hstamped x hx
      | commit =>
          simp only [Prog.exec, Option.some.injEq, Prod.mk.injEq] at hexec
          obtain ⟨rfl, rfl, rfl⟩ := hexec
          exact ⟨hview s hs, by simp, hok _ (hview s hs)⟩
      | rollback =>
          simp only [Prog.exec, Option.some.injEq, Prod.mk.injEq] at hexec
          obtain ⟨rfl, rfl, rfl⟩ := hexec
          exact ⟨hs, by simp, hok _ hs⟩
      | call c =>
          simp only [Prog.exec, Option.some.injEq, Prod.mk.injEq] at hexec
          obtain ⟨rfl, rfl, rfl⟩ := hexec
          have hs' := hperform c i s hs
          exact ⟨hs', hwrites, hok _ (hview _ hs')⟩

variable [DecidableEq Row] {sys : System K S Row Write Call Input Exc Point}
  (hstamp : ∀ i x, P x → P (sys.storage.stamp i x))
  (happly : ∀ x s, P x → good s → good (sys.storage.apply x s))
  (hperform : ∀ c i s, good s → good (sys.storage.perform c i s))

include hstamp happly hperform in
/-- One step of the world; a session that begins has to have the property. -/
theorem World.Good.step {a : Action K Input} (h : w.Good good P)
    (hcode : ∀ k, a = .spawn k → (sys.code k).Writes good P fun _ => True)
    (hstep : w.step sys a = some w') : w'.Good good P := by
  rcases World.step_cases hstep with ⟨k, rfl, -, rfl⟩ |
    ⟨pid, i, p, prog, t, s, rfl, hp, hexec, rfl⟩ | ⟨pid, p, prog, rfl, hp, hfault, rfl⟩ |
    ⟨pid, p, rfl, hp, rfl⟩
  · refine ⟨h.state, fun q hq => ?_, fun q hq => ?_⟩
    · rcases List.mem_append.mp hq with hq | hq
      · exact h.writes q hq
      · obtain rfl := List.mem_singleton.mp hq
        simp
    · rcases List.mem_append.mp hq with hq | hq
      · exact h.prog q hq
      · obtain rfl := List.mem_singleton.mp hq
        exact hcode k rfl
  · have hmem := List.mem_of_getElem? hp
    obtain ⟨hs, hwrites, hprog⟩ := (h.prog p hmem).exec hstamp happly hperform h.state
      (h.writes p hmem) hexec
    exact h.set hs hwrites hprog
  · refine h.set h.state (by simp) ?_
    have hbefore := h.prog p (List.mem_of_getElem? hp)
    revert hfault hbefore
    cases p.prog with
    | ret a => simp [Prog.fault]
    | raise e => simp [Prog.fault]
    | step pt st next =>
        rintro hfault ⟨-, herror, -⟩
        cases st with
        | call c => simp [Prog.fault] at hfault
        | select | lock | flush | commit | rollback =>
            obtain rfl := Option.some.inj hfault
            exact herror _
  · exact h.set h.state (by simp) trivial

variable (good) in
include hstamp happly hperform in
/-- The property holds in every world that is reached by sessions whose code
keeps it. -/
theorem Reach.writes {allowed : World K S Row Write Call Input Exc Point → Action K Input →
      World K S Row Write Call Input Exc Point → Prop} {s₀ : S} (hs₀ : good s₀)
    (hcode : ∀ w a w' k, allowed w a w' → a = .spawn k →
      (sys.code k).Writes good P fun _ => True)
    (h : Reach sys allowed (.initial s₀) w) : w.Good good P := by
  induction h with
  | refl => exact ⟨hs₀, by simp [World.initial], by simp [World.initial]⟩
  | step _ hstep hallowed ih =>
      exact ih.step hstamp happly hperform (fun k => hcode _ _ _ k hallowed) hstep

end Worlds

/-- The kinds of the sessions that have begun are those of the world. -/
theorem Reach.spawned [DecidableEq Row] {sys : System K S Row Write Call Input Exc Point}
    {allowed : World K S Row Write Call Input Exc Point → Action K Input →
      World K S Row Write Call Input Exc Point → Prop}
    {w₀ w : World K S Row Write Call Input Exc Point} (h : Reach sys allowed w₀ w) :
    Reach sys (fun w₁ a w₂ => allowed w₁ a w₂ ∧ ∀ k, a = .spawn k → ∃ q ∈ w.procs, q.kind = k)
      w₀ w := by
  induction h with
  | refl => exact .refl
  | @step w₁ w₂ a _ hstep hallowed ih =>
      have hkept : ∀ q ∈ w₁.procs, ∃ q' ∈ w₂.procs, q'.kind = q.kind := by
        intro q hq
        obtain ⟨pid, hlt, hget⟩ := List.getElem_of_mem hq
        obtain ⟨q', hq', hkind⟩ := World.kind_step hstep (List.getElem?_eq_some_iff.mpr ⟨hlt, hget⟩)
        exact ⟨q', List.mem_of_getElem? hq', hkind⟩
      refine .step (ih.mono fun _ _ _ h => ⟨h.1, fun k hk => ?_⟩) hstep ⟨hallowed, ?_⟩
      · obtain ⟨q, hq, rfl⟩ := h.2 k hk
        exact hkept q hq
      · rintro k rfl
        rcases World.step_cases hstep with ⟨k', heq, -, rfl⟩ | ⟨_, _, _, _, _, _, heq, -⟩ |
          ⟨_, _, _, heq, -⟩ | ⟨_, _, heq, -⟩
        · cases heq
          exact ⟨_, List.mem_append_right _ (List.mem_singleton.mpr rfl), rfl⟩
        all_goals cases heq

/-- Every session was admitted once. -/
theorem Reach.admitted [DecidableEq Row] {sys : System K S Row Write Call Input Exc Point}
    {allowed : World K S Row Write Call Input Exc Point → Action K Input →
      World K S Row Write Call Input Exc Point → Prop} {s₀ : S}
    {w : World K S Row Write Call Input Exc Point} (h : Reach sys allowed (.initial s₀) w)
    {p : Proc K S Row Write Call Input Exc Point} (hp : p ∈ w.procs) :
    ∃ w₁, Reach sys allowed (.initial s₀) w₁ ∧ sys.admits p.kind w₁.state ∧
      Reach sys allowed w₁ w := by
  induction h generalizing p with
  | refl => cases hp
  | @step w₂ w a h hstep hallowed ih =>
      have hold {q : Proc K S Row Write Call Input Exc Point} (hq : q ∈ w₂.procs)
          (hkind : p.kind = q.kind) : ∃ w₁, Reach sys allowed (.initial s₀) w₁ ∧
            sys.admits p.kind w₁.state ∧ Reach sys allowed w₁ w := by
        obtain ⟨w₁, hbefore, hadmits, hafter⟩ := ih hq
        exact ⟨w₁, hbefore, hkind ▸ hadmits, .step hafter hstep hallowed⟩
      rcases World.step_cases hstep with ⟨k, rfl, hadmits, rfl⟩ |
        ⟨pid, i, q, prog, t, s, rfl, hq, -, rfl⟩ | ⟨pid, q, prog, rfl, hq, -, rfl⟩ |
        ⟨pid, q, rfl, hq, rfl⟩
      · rcases List.mem_append.mp hp with hp | hp
        · exact hold hp rfl
        · obtain rfl := List.mem_singleton.mp hp
          exact ⟨w₂, h, hadmits, .step .refl hstep hallowed⟩
      all_goals
        rcases List.mem_or_eq_of_mem_set hp with hp | rfl
        · exact hold hp rfl
        · exact hold (List.mem_of_getElem? hq) rfl

/-- Every step of a run starts where the run has come to. -/
theorem Reach.along [DecidableEq Row] {sys : System K S Row Write Call Input Exc Point}
    {allowed : World K S Row Write Call Input Exc Point → Action K Input →
      World K S Row Write Call Input Exc Point → Prop}
    {w₀ w : World K S Row Write Call Input Exc Point} (h : Reach sys allowed w₀ w) :
    Reach sys (fun w₁ a w₂ => allowed w₁ a w₂ ∧ Reach sys allowed w₀ w₁) w₀ w := by
  induction h with
  | refl => exact .refl
  | step h hstep hallowed ih => exact .step ih hstep ⟨hallowed, h⟩

/-- What holds at the end, and before a step if after it, has held all along. -/
theorem Reach.backward [DecidableEq Row] {sys : System K S Row Write Call Input Exc Point}
    {allowed : World K S Row Write Call Input Exc Point → Action K Input →
      World K S Row Write Call Input Exc Point → Prop}
    {P : World K S Row Write Call Input Exc Point → Prop}
    {w₀ w : World K S Row Write Call Input Exc Point}
    (hback : ∀ w₁ w₂ a, Reach sys allowed w₀ w₁ → w₁.step sys a = some w₂ → P w₂ → P w₁)
    (h : Reach sys allowed w₀ w) (hP : P w) :
    Reach sys (fun w₁ a w₂ => allowed w₁ a w₂ ∧ P w₁) w₀ w := by
  induction h with
  | refl => exact .refl
  | step h hstep hallowed ih =>
      have hbefore := hback _ _ _ h hstep hP
      exact .step (ih hbefore) hstep ⟨hallowed, hbefore⟩

end Transact
