import Mathlib.Data.Nat.Notation
import Mathlib.Logic.Relation

/-!
Programs of database sessions.

A session is a sequential program whose steps are database statements and
calls to the world outside the database. Between two steps every other
session may run, so a program is a tree: each step names its statement and
continues with the reply. The continuation receives either the reply or the
exception the statement raised, and a program that does not handle the
exception ends with it.

Each step also carries a *point*, an annotation the statement has no access
to. It records what the rest of the program still relies on, and conditions
on schedules are stated in terms of it.
-/

namespace Transact

/-- The statements of a session. `lock` is `SELECT … FOR UPDATE`: it names
the rows it wants from its view and from the predicate telling which rows no
other session holds; without `skip` it waits for all of them. -/
inductive Stmt (S Row Write Call : Type) where
  | select
  | lock (skip : Bool) (rows : S → (Row → Bool) → List Row)
  | flush (writes : List Write)
  | commit
  | rollback
  | call (c : Call)

/-- What a statement returns: the state as the session sees it, the rows a
`lock` could choose from, and the inputs drawn from outside at this step. -/
structure Reply (S Row Input : Type) where
  view : S
  free : Row → Bool
  input : Input

/-- A session program returning `α` or raising an exception. -/
inductive Prog (S Row Write Call Input Exc Point α : Type) where
  | ret (a : α)
  | raise (e : Exc)
  | step (pt : Point) (stmt : Stmt S Row Write Call)
      (next : Except Exc (Reply S Row Input) → Prog S Row Write Call Input Exc Point α)

variable {S Row Write Call Input Exc Point α β : Type}

namespace Prog

/-- Runs `p` and continues with its outcome, whether value or exception. -/
def andThen (p : Prog S Row Write Call Input Exc Point α)
    (k : Except Exc α → Prog S Row Write Call Input Exc Point β) :
    Prog S Row Write Call Input Exc Point β :=
  match p with
  | .ret a => k (.ok a)
  | .raise e => k (.error e)
  | .step pt stmt next => .step pt stmt fun reply => (next reply).andThen k

/-- Sequencing; an exception of the first program ends the whole. -/
def bind (p : Prog S Row Write Call Input Exc Point α)
    (f : α → Prog S Row Write Call Input Exc Point β) :
    Prog S Row Write Call Input Exc Point β :=
  p.andThen fun outcome =>
    match outcome with
    | .ok a => f a
    | .error e => .raise e

instance : Monad (Prog S Row Write Call Input Exc Point) where
  pure := .ret
  bind := bind

/-- `try: p except Exception as exc: handler(exc)`. -/
def tryCatch (p : Prog S Row Write Call Input Exc Point α)
    (handler : Exc → Prog S Row Write Call Input Exc Point α) :
    Prog S Row Write Call Input Exc Point α :=
  p.andThen fun outcome =>
    match outcome with
    | .ok a => .ret a
    | .error e => handler e

/-- One statement at `pt`, its reply reshaped by `f`. -/
def stmt (pt : Point) (st : Stmt S Row Write Call) (f : Reply S Row Input → α) :
    Prog S Row Write Call Input Exc Point α :=
  .step pt st fun reply =>
    match reply with
    | .ok reply => .ret (f reply)
    | .error e => .raise e

/-- A pure computation that may raise. -/
def ofExcept : Except Exc α → Prog S Row Write Call Input Exc Point α
  | .ok a => .ret a
  | .error e => .raise e

/-- The point of the next statement; `none` once the program has ended. -/
def point? : Prog S Row Write Call Input Exc Point α → Option Point
  | .ret _ => none
  | .raise _ => none
  | .step pt _ _ => some pt

/-- Whatever the statements return, everything flushed satisfies `P`. -/
def Flushes (P : List Write → Prop) : Prog S Row Write Call Input Exc Point α → Prop
  | .ret _ => True
  | .raise _ => True
  | .step _ st next => (∀ ws, st = .flush ws → P ws) ∧ ∀ reply, Flushes P (next reply)

@[simp] theorem pure_eq (a : α) :
    (pure a : Prog S Row Write Call Input Exc Point α) = .ret a := rfl

@[simp] theorem bind_eq (p : Prog S Row Write Call Input Exc Point α)
    (f : α → Prog S Row Write Call Input Exc Point β) : p >>= f = p.bind f := rfl

@[simp] theorem map_eq (f : α → β) (p : Prog S Row Write Call Input Exc Point α) :
    f <$> p = p.bind fun a => .ret (f a) := rfl

@[simp] theorem point?_ret (a : α) :
    (ret a : Prog S Row Write Call Input Exc Point α).point? = none := rfl

@[simp] theorem point?_raise (e : Exc) :
    (raise e : Prog S Row Write Call Input Exc Point α).point? = none := rfl

@[simp] theorem point?_step (pt : Point) (st : Stmt S Row Write Call)
    (next : Except Exc (Reply S Row Input) → Prog S Row Write Call Input Exc Point α) :
    (step pt st next).point? = some pt := rfl

theorem Flushes.mono {P P' : List Write → Prop} (hP : ∀ ws, P ws → P' ws)
    {p : Prog S Row Write Call Input Exc Point α} (h : p.Flushes P) : p.Flushes P' := by
  induction p with
  | ret a => exact trivial
  | raise e => exact trivial
  | step pt st next ih => exact ⟨fun ws hst => hP ws (h.1 ws hst), fun reply => ih reply (h.2 reply)⟩

theorem Flushes.andThen {P : List Write → Prop} {p : Prog S Row Write Call Input Exc Point α}
    {k : Except Exc α → Prog S Row Write Call Input Exc Point β} (h : p.Flushes P)
    (hk : ∀ outcome, (k outcome).Flushes P) : (p.andThen k).Flushes P := by
  induction p with
  | ret a => exact hk _
  | raise e => exact hk _
  | step pt st next ih => exact ⟨h.1, fun reply => ih reply (h.2 reply)⟩

theorem Flushes.bind {P : List Write → Prop} {p : Prog S Row Write Call Input Exc Point α}
    {k : α → Prog S Row Write Call Input Exc Point β} (h : p.Flushes P)
    (hk : ∀ a, (k a).Flushes P) : (p.bind k).Flushes P := by
  refine h.andThen fun outcome => ?_
  cases outcome with
  | ok a => exact hk a
  | error e => exact trivial

theorem Flushes.stmt {P : List Write → Prop} {pt : Point} {st : Stmt S Row Write Call}
    {f : Reply S Row Input → α} (h : ∀ ws, st = .flush ws → P ws) :
    (Prog.stmt pt st f : Prog S Row Write Call Input Exc Point α).Flushes P := by
  refine ⟨h, fun reply => ?_⟩
  cases reply <;> exact trivial

theorem Flushes.ofExcept {P : List Write → Prop} {x : Except Exc α} :
    (Prog.ofExcept x : Prog S Row Write Call Input Exc Point α).Flushes P := by
  cases x <;> exact trivial

end Prog

end Transact
