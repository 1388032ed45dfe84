import Runscope.Transact.Writes

/-!
The trail of a session: what it has committed, and what it has flushed since.

`Prog.Trails` says, statement by statement, that every flush extends the trail
to one that has a given property. It looks at one session by itself. The others
matter only through what its statements return, and nothing is assumed of that
but what holds of every committed state (`good`) and of every call (`adm`).
-/

namespace Transact

variable {K S Row Write Call Input Exc Point α β : Type}

/-- What a statement does to the trail of a session that has committed `done`
and flushed `ws`: whatever it returns, `K` holds of that and of the two parts
of the trail then. -/
def Stmt.Trail (σ : Storage S Row Write Call Input Exc) (good : S → Prop)
    (adm : Call → Input → Prop) (P : List Write → Prop)
    (K : Except Exc (Reply S Row Input) → List Write → List Write → Prop)
    (st : Stmt S Row Write Call) (done ws : List Write) : Prop :=
  -- a statement that fails closes the transaction
  (∀ e, K (.error e) done []) ∧
    match st with
    | .select => ∀ reply, (ws = [] → good reply.view) → K (.ok reply) done ws
    | .lock _ _ => ∀ reply, (ws = [] → good reply.view) → K (.ok reply) done ws
    | .flush new => ∀ i, P (done ++ ws ++ new.map (σ.stamp i)) ∧
        ∀ reply, K (.ok reply) done (ws ++ new.map (σ.stamp i))
    | .commit => ∀ reply, K (.ok reply) (done ++ ws) []
    | .rollback => ∀ reply, K (.ok reply) done []
    | .call c => ∀ reply, adm c reply.input → K (.ok reply) done ws

/-- Every flush of the program extends the trail to one with `P`, and `Q` holds
of its outcome and of the trail then. -/
def Prog.Trails (σ : Storage S Row Write Call Input Exc) (good : S → Prop)
    (adm : Call → Input → Prop) (P : List Write → Prop)
    (Q : Except Exc α → List Write → List Write → Prop) :
    Prog S Row Write Call Input Exc Point α → List Write → List Write → Prop
  | .ret a => Q (.ok a)
  | .raise e => Q (.error e)
  | .step _ st next => st.Trail σ good adm P fun reply => Trails σ good adm P Q (next reply)

theorem Stmt.Trail.mono {σ : Storage S Row Write Call Input Exc} {good : S → Prop}
    {adm : Call → Input → Prop} {P : List Write → Prop}
    {K K' : Except Exc (Reply S Row Input) → List Write → List Write → Prop}
    {st : Stmt S Row Write Call} {done ws : List Write} (h : st.Trail σ good adm P K done ws)
    (hK : ∀ x done ws, K x done ws → K' x done ws) : st.Trail σ good adm P K' done ws := by
  obtain ⟨herror, hok⟩ := h
  refine ⟨fun e => hK _ _ _ (herror e), ?_⟩
  cases st with
  | select => exact fun reply hview => hK _ _ _ (hok reply hview)
  | lock skip rows => exact fun reply hview => hK _ _ _ (hok reply hview)
  | flush new => exact fun i => ⟨(hok i).1, fun reply => hK _ _ _ ((hok i).2 reply)⟩
  | commit => exact fun reply => hK _ _ _ (hok reply)
  | rollback => exact fun reply => hK _ _ _ (hok reply)
  | call c => exact fun reply hadm => hK _ _ _ (hok reply hadm)

namespace Prog.Trails

variable {σ : Storage S Row Write Call Input Exc} {good : S → Prop} {adm : Call → Input → Prop}
  {P : List Write → Prop} {Q : Except Exc α → List Write → List Write → Prop}
  {pt : Point} {done ws : List Write}

theorem ret {a : α} (h : Q (.ok a) done ws) :
    (Prog.ret a : Prog S Row Write Call Input Exc Point α).Trails σ good adm P Q done ws := h

theorem raise {e : Exc} (h : Q (.error e) done ws) :
    (Prog.raise e : Prog S Row Write Call Input Exc Point α).Trails σ good adm P Q done ws := h

theorem andThen {p : Prog S Row Write Call Input Exc Point β}
    {k : Except Exc β → Prog S Row Write Call Input Exc Point α}
    (h : p.Trails σ good adm P (fun x done ws => (k x).Trails σ good adm P Q done ws) done ws) :
    (p.andThen k).Trails σ good adm P Q done ws := by
  induction p generalizing done ws with
  | ret a => exact h
  | raise e => exact h
  | step pt st next ih => exact Stmt.Trail.mono h fun x _ _ hx => ih x hx

theorem mono {p : Prog S Row Write Call Input Exc Point α}
    {Q' : Except Exc α → List Write → List Write → Prop} (h : p.Trails σ good adm P Q done ws)
    (hQ : ∀ x done ws, Q x done ws → Q' x done ws) : p.Trails σ good adm P Q' done ws := by
  induction p generalizing done ws with
  | ret a => exact hQ _ _ _ h
  | raise e => exact hQ _ _ _ h
  | step pt st next ih => exact Stmt.Trail.mono h fun x _ _ hx => ih x hx

/-- A weaker property of the trails. -/
theorem imp {P' : List Write → Prop} {p : Prog S Row Write Call Input Exc Point α}
    (h : p.Trails σ good adm P Q done ws) (hP : ∀ trail, P trail → P' trail) :
    p.Trails σ good adm P' Q done ws := by
  induction p generalizing done ws with
  | ret a => exact h
  | raise e => exact h
  | step pt st next ih =>
      obtain ⟨herror, hok⟩ := h
      refine ⟨fun e => ih _ (herror e), ?_⟩
      cases st with
      | flush new => exact fun i => ⟨hP _ (hok i).1, fun reply => ih _ ((hok i).2 reply)⟩
      | select | lock | call => exact fun reply hreply => ih _ (hok reply hreply)
      | commit | rollback => exact fun reply => ih _ (hok reply)

theorem bind {p : Prog S Row Write Call Input Exc Point β}
    {k : β → Prog S Row Write Call Input Exc Point α}
    (h : p.Trails σ good adm P (fun x done ws =>
      match x with
      | .ok b => (k b).Trails σ good adm P Q done ws
      | .error e => Q (.error e) done ws) done ws) :
    (p.bind k).Trails σ good adm P Q done ws :=
  andThen (h.mono fun x _ _ hx => by cases x <;> exact hx)

theorem tryCatch {p : Prog S Row Write Call Input Exc Point α}
    {handler : Exc → Prog S Row Write Call Input Exc Point α}
    (h : p.Trails σ good adm P (fun x done ws =>
      match x with
      | .ok a => Q (.ok a) done ws
      | .error e => (handler e).Trails σ good adm P Q done ws) done ws) :
    (p.tryCatch handler).Trails σ good adm P Q done ws :=
  andThen (h.mono fun x _ _ hx => by cases x <;> exact hx)

theorem ofExcept {x : Except Exc α} (h : Q x done ws) :
    (Prog.ofExcept x : Prog S Row Write Call Input Exc Point α).Trails σ good adm P Q done ws := by
  cases x with
  | ok a => exact h
  | error e => exact h

variable {f : Reply S Row Input → α}

theorem select (herror : ∀ e, Q (.error e) done [])
    (h : ∀ reply, (ws = [] → good reply.view) → Q (.ok (f reply)) done ws) :
    (Prog.stmt pt .select f : Prog S Row Write Call Input Exc Point α).Trails σ good adm P Q
      done ws :=
  ⟨herror, h⟩

theorem lock {skip : Bool} {rows : S → (Row → Bool) → List Row} (herror : ∀ e, Q (.error e) done [])
    (h : ∀ reply, (ws = [] → good reply.view) → Q (.ok (f reply)) done ws) :
    (Prog.stmt pt (.lock skip rows) f : Prog S Row Write Call Input Exc Point α).Trails σ good adm
      P Q done ws :=
  ⟨herror, h⟩

theorem flush {new : List Write} (herror : ∀ e, Q (.error e) done [])
    (h : ∀ i, P (done ++ ws ++ new.map (σ.stamp i)) ∧ ∀ reply,
      Q (.ok (f reply)) done (ws ++ new.map (σ.stamp i))) :
    (Prog.stmt pt (.flush new) f : Prog S Row Write Call Input Exc Point α).Trails σ good adm P Q
      done ws :=
  ⟨herror, h⟩

theorem commit (herror : ∀ e, Q (.error e) done []) (h : ∀ reply, Q (.ok (f reply)) (done ++ ws) []) :
    (Prog.stmt pt .commit f : Prog S Row Write Call Input Exc Point α).Trails σ good adm P Q
      done ws :=
  ⟨herror, h⟩

theorem rollback (herror : ∀ e, Q (.error e) done []) (h : ∀ reply, Q (.ok (f reply)) done []) :
    (Prog.stmt pt .rollback f : Prog S Row Write Call Input Exc Point α).Trails σ good adm P Q
      done ws :=
  ⟨herror, h⟩

theorem call {c : Call} (herror : ∀ e, Q (.error e) done [])
    (h : ∀ reply, adm c reply.input → Q (.ok (f reply)) done ws) :
    (Prog.stmt pt (.call c) f : Prog S Row Write Call Input Exc Point α).Trails σ good adm P Q
      done ws :=
  ⟨herror, h⟩

/-- If every trail has the property, nothing is asked of the program. -/
theorem of_forall (hP : ∀ trail, P trail) (p : Prog S Row Write Call Input Exc Point α) :
    p.Trails σ good adm P (fun _ _ _ => True) done ws := by
  induction p generalizing done ws with
  | ret a => exact trivial
  | raise e => exact trivial
  | step pt st next ih =>
      refine ⟨fun e => ih _, ?_⟩
      cases st with
      | flush new => exact fun i => ⟨hP _, fun reply => ih _⟩
      | select | lock | call => exact fun reply _ => ih _
      | commit | rollback => exact fun reply => ih _

/-- What is committed stays the beginning of the trail. -/
theorem grows {first : List Write} (hfirst : first <+: done)
    (p : Prog S Row Write Call Input Exc Point α) :
    p.Trails σ good adm (fun trail => first <+: trail) (fun _ done _ => first <+: done) done ws := by
  induction p generalizing done ws with
  | ret a => exact hfirst
  | raise e => exact hfirst
  | step pt st next ih =>
      refine ⟨fun e => ih _ hfirst, ?_⟩
      cases st with
      | flush new =>
          refine fun i => ⟨?_, fun reply => ih _ hfirst⟩
          rw [List.append_assoc]
          exact hfirst.trans (List.prefix_append ..)
      | select | lock | call => exact fun reply _ => ih _ hfirst
      | commit => exact fun reply => ih _ (hfirst.trans (List.prefix_append ..))
      | rollback => exact fun reply => ih _ hfirst

/-- A program that flushes only writes with a property leaves only such a
trail. -/
theorem of_writes {read : S → Prop} {R : Write → Prop} {A : α → Prop} (hread : ∀ s, read s)
    (hstamp : ∀ i x, R x → R (σ.stamp i x)) {p : Prog S Row Write Call Input Exc Point α}
    (h : p.Writes read R A) (hdone : ∀ x ∈ done, R x) (hws : ∀ x ∈ ws, R x) :
    p.Trails σ good adm (fun trail => ∀ x ∈ trail, R x) (fun _ _ _ => True) done ws := by
  induction p generalizing done ws with
  | ret a => exact trivial
  | raise e => exact trivial
  | step pt st next ih =>
      obtain ⟨hflush, herror, hok⟩ := h
      refine ⟨fun e => ih _ (herror e) hdone (by simp), ?_⟩
      cases st with
      | flush new =>
          intro i
          have hnew : ∀ x ∈ ws ++ new.map (σ.stamp i), R x := by
            intro x hx
            rcases List.mem_append.mp hx with hx | hx
            · exact hws x hx
            · obtain ⟨y, hy, rfl⟩ := List.mem_map.mp hx
              exact hstamp i y (hflush new rfl y hy)
          refine ⟨fun x hx => ?_, fun reply => ih _ (hok _ (hread _)) hdone hnew⟩
          rw [List.append_assoc] at hx
          rcases List.mem_append.mp hx with hx | hx
          · exact hdone x hx
          · exact hnew x hx
      | select | lock | call => exact fun reply _ => ih _ (hok _ (hread _)) hdone hws
      | commit =>
          refine fun reply => ih _ (hok _ (hread _)) (fun x hx => ?_) (by simp)
          rcases List.mem_append.mp hx with hx | hx
          · exact hdone x hx
          · exact hws x hx
      | rollback => exact fun reply => ih _ (hok _ (hread _)) hdone (by simp)

end Prog.Trails

section Worlds

variable {σ : Storage S Row Write Call Input Exc} {good : S → Prop} {adm : Call → Input → Prop}
  {P : List Write → Prop} {Q : Except Exc α → List Write → List Write → Prop}

/-- Where the session stands, and that the rest of its program does well. -/
structure Session.Trails (σ : Storage S Row Write Call Input Exc) (good : S → Prop)
    (adm : Call → Input → Prop) (P : List Write → Prop)
    (Q : Except Exc α → List Write → List Write → Prop)
    (p : Prog S Row Write Call Input Exc Point α) (t : Session Row Write Call Input) : Prop where
  committed : P t.committed
  flushed : P (t.committed ++ t.writes)
  prog : p.Trails σ good adm P Q t.committed t.writes

theorem Session.Trails.close {p : Prog S Row Write Call Input Exc Point α}
    {t : Session Row Write Call Input} (h : P t.committed)
    (hprog : p.Trails σ good adm P Q t.committed []) :
    Session.Trails σ good adm P Q p t.close :=
  ⟨h, by rwa [close_writes, close_committed, List.append_nil], hprog⟩

/-- One statement of the session. -/
theorem Session.Trails.exec {free : Row → Bool} {i : Input}
    {p p' : Prog S Row Write Call Input Exc Point α} {t t' : Session Row Write Call Input} {s s' : S}
    (h : Session.Trails σ good adm P Q p t) (hgood : good s)
    (hadm : ∀ pt c next, p = .step pt (.call c) next → adm c i)
    (hexec : p.exec σ free i t s = some (p', t', s')) : Session.Trails σ good adm P Q p' t' := by
  have hview : t.writes = [] → good (t.view σ s) := by
    intro hnone
    rwa [Session.view, hnone]
  cases p with
  | ret a => simp [Prog.exec] at hexec
  | raise e => simp [Prog.exec] at hexec
  | step pt st next =>
      obtain ⟨hcommitted, hflushed, herror, hok⟩ := h
      cases st with
      | select =>
          simp only [Prog.exec, Option.some.injEq, Prod.mk.injEq] at hexec
          obtain ⟨rfl, rfl, -⟩ := hexec
          exact ⟨hcommitted, hflushed, hok _ hview⟩
      | lock skip rows =>
          simp only [Prog.exec, Option.ite_none_right_eq_some, Option.some.injEq,
            Prod.mk.injEq] at hexec
          obtain ⟨-, rfl, rfl, -⟩ := hexec
          exact ⟨hcommitted, hflushed, hok _ hview⟩
      | flush new =>
          simp only [Prog.exec, Option.ite_none_right_eq_some] at hexec
          obtain ⟨-, hexec⟩ := hexec
          split at hexec
          all_goals
            simp only [Option.some.injEq, Prod.mk.injEq] at hexec
            obtain ⟨rfl, rfl, -⟩ := hexec
          · exact .close hcommitted (herror _)
          · obtain ⟨hnew, hrest⟩ := hok (t.began.getD i)
            refine ⟨hcommitted, ?_, hrest _⟩
            rw [Session.write_writes, Session.begin_writes, ← List.append_assoc]
            exact hnew
      | commit =>
          simp only [Prog.exec, Option.some.injEq, Prod.mk.injEq] at hexec
          obtain ⟨rfl, rfl, -⟩ := hexec
          exact ⟨hflushed, by simpa using hflushed, hok _⟩
      | rollback =>
          simp only [Prog.exec, Option.some.injEq, Prod.mk.injEq] at hexec
          obtain ⟨rfl, rfl, -⟩ := hexec
          exact .close hcommitted (hok _)
      | call c =>
          simp only [Prog.exec, Option.some.injEq, Prod.mk.injEq] at hexec
          obtain ⟨rfl, rfl, -⟩ := hexec
          exact ⟨hcommitted, hflushed, hok _ (hadm pt c next rfl)⟩

theorem Session.Trails.fault {p p' : Prog S Row Write Call Input Exc Point α}
    {t : Session Row Write Call Input} (h : Session.Trails σ good adm P Q p t)
    (hfault : p.fault σ = some p') : Session.Trails σ good adm P Q p' t.close := by
  cases p with
  | ret a => cases hfault
  | raise e => cases hfault
  | step pt st next =>
      cases st with
      | call c => cases hfault
      | select | lock | flush | commit | rollback =>
          obtain rfl := Option.some.inj hfault
          exact .close h.committed (h.prog.1 _)

variable [DecidableEq Row] {sys : System K S Row Write Call Input Exc Point}
  {w : World K S Row Write Call Input Exc Point}

/-- The sessions of some kinds, in a world that is reached by admissible calls
and where every state that such a session met was good. -/
theorem Reach.trails {allowed : World K S Row Write Call Input Exc Point → Action K Input →
      World K S Row Write Call Input Exc Point → Prop} {s₀ : S} (kinds : K → Prop) (hnone : P [])
    (hcode : ∀ k, kinds k → (sys.code k).Trails sys.storage good adm P (fun _ _ _ => True) [] [])
    (hallowed : ∀ w a w', allowed w a w' → (∀ p ∈ w.procs, kinds p.kind → good w.state) ∧
      ∀ pid i p pt c next, a = .run pid i → w.procs[pid]? = some p →
        p.prog = .step pt (.call c) next → adm c i)
    (h : Reach sys allowed (.initial s₀) w) : ∀ p ∈ w.procs, kinds p.kind →
      Session.Trails sys.storage good adm P (fun _ _ _ => True) p.prog p.session := by
  induction h with
  | refl => exact fun p hp => by cases hp
  | step _ hstep hstepAllowed ih =>
      obtain ⟨hgood, hadm⟩ := hallowed _ _ _ hstepAllowed
      intro q hq hkind
      rcases World.step_cases hstep with ⟨k, rfl, -, rfl⟩ |
        ⟨pid, i, p, prog, t, s, rfl, hp, hexec, rfl⟩ | ⟨pid, p, prog, rfl, hp, hfault, rfl⟩ |
        ⟨pid, p, rfl, hp, rfl⟩
      · rcases List.mem_append.mp hq with hq | hq
        · exact ih q hq hkind
        · obtain rfl := List.mem_singleton.mp hq
          exact ⟨hnone, hnone, hcode k hkind⟩
      · rcases List.mem_or_eq_of_mem_set hq with hq | rfl
        · exact ih q hq hkind
        · have hmem := List.mem_of_getElem? hp
          exact (ih p hmem hkind).exec (hgood p hmem hkind)
            (fun pt c next hprog => hadm pid i p pt c next rfl hp hprog) hexec
      · rcases List.mem_or_eq_of_mem_set hq with hq | rfl
        · exact ih q hq hkind
        · exact (ih p (List.mem_of_getElem? hp) hkind).fault hfault
      · rcases List.mem_or_eq_of_mem_set hq with hq | rfl
        · exact ih q hq hkind
        · exact .close (ih p (List.mem_of_getElem? hp) hkind).committed trivial

end Worlds

end Transact
