import Runscope.Commits

/-!
The dispatcher keeps the contract: it publishes what stands in the outbox, and
what once stood there is still a message of its run.
-/

namespace Runscope

open Transact

variable {m : Mode} {κ : Kind} {t : Session} {p : Platform}

/-- The message is about a run whose messages it is one of. -/
def Sent (p : Platform) (message : OutboxMessage) : Prop :=
  ∃ r, message.envelope ∈ (p.db.runView r).messages

theorem Sent.later {p p' : Platform} {message : OutboxMessage} (h : Sent p message)
    (hp : Later p p') : Sent p' message := by
  obtain ⟨r, hr⟩ := h
  exact ⟨r, (hp r).messages hr⟩

theorem Sent.of_mem {message : OutboxMessage} (hI : Invariant m p)
    (h : message ∈ p.db.outbox.rows) : Sent p message := by
  obtain ⟨r, hr⟩ := hI.addressed message h
  exact ⟨r, List.mem_filter.mpr ⟨List.mem_map_of_mem h, by simpa using hr⟩⟩

/-- A message that was sent may be published. -/
theorem Invariant.publish {message : OutboxMessage} (hI : Invariant m p) (h : Sent p message)
    (i : Input) : Invariant m (Call.perform (.publish message.envelope) i p) := by
  have huntouched (r : Uuid) : Untouched r p (Call.perform (.publish message.envelope) i p) :=
    .perform (by simp) i p
  refine hI.of_db_eq (Call.perform_db (.publish message.envelope) i p) (fun e he => ?_)
    fun _ a _ => (huntouched a.storageKey.1).content a.storageKey.2
  simp only [Call.perform] at he
  split at he
  · exact hI.topic e he
  · rcases List.mem_append.mp he with he | he
    · exact hI.topic e he
    · obtain rfl := List.mem_singleton.mp he
      exact h

theorem publishMessages_holds {Q : Outcome (ℕ × List Write)} {messages : List OutboxMessage}
    (hI : Invariant m p) (ht : t.writes = []) (hsent : ∀ x ∈ messages, Sent p x)
    (h : ∀ p' t' n pending, t'.writes = [] → (∀ w ∈ pending, ∃ x y, w = .updateOutbox x y) →
      Q (.ok (n, pending)) t' p') : Holds m κ Q (publishMessages messages) t p := by
  induction messages generalizing Q t p with
  | nil => exact h p t 0 [] ht (by simp)
  | cons message rest ih =>
      have hlater {p₁ : Platform} (hp₁ : Meanwhile m κ {} t p p₁) (i : Input) :
          Later p (Call.perform (.publish message.envelope) i p₁) := fun r => by
        rw [Call.perform_db (.publish message.envelope) i p₁]
        exact hp₁.rely.runs r
      refine .call (by simp) (fun _ _ => .of_ne (by simp) (by simp)) (fun p₁ i hp₁ => ?_)
        fun p₁ i hp₁ => ?_
      · exact hp₁.inv.publish ((hsent message (by simp)).later (.of_meanwhile hp₁)) i
      have hinv : Invariant m (Call.perform (.publish message.envelope) i p₁) :=
        hp₁.inv.publish ((hsent message (by simp)).later (.of_meanwhile hp₁)) i
      dsimp only
      split
      · exact h _ _ _ _ ht fun w hw => ⟨_, _, List.mem_singleton.mp hw⟩
      · refine .datetimeNow fun p₂ t₂ now ht₂ hp₂ => .bind (ih hp₂.inv (ht₂.writes.trans ht)
          (fun x hx => ?_) fun p₃ t₃ n pending ht₃ hpending => h _ _ _ _ ht₃ fun w hw => ?_)
        · exact ((hsent x (by simp [hx])).later (hlater hp₁ i)).later (.of_meanwhile hp₂)
        · rcases List.mem_cons.mp hw with rfl | hw
          · exact ⟨_, _, rfl⟩
          · exact hpending w hw

theorem dispatchBatch_holds {Q : Outcome ℕ} (hQ : ∀ x t p, Q x t p) {limit maxAttempts : ℕ}
    (ht : t.writes = []) :
    Holds m (.dispatchBatch limit maxAttempts) Q (dispatchBatch limit maxAttempts) t p := by
  have hf (p : Platform) : Fails m Q p := .of_forall hQ p
  refine .selectForUpdate (hf p) fun p₁ i free hp₁ => ?_
  rw [Session.view, ht, Storage.applyAll_nil]
  refine .bind (publishMessages_holds hp₁.inv ht (fun x hx => .of_mem hp₁.inv ?_)
    fun p₂ t₂ n pending ht₂ hpending => ?_)
  · have hx := (List.mem_insertionSort _).mp (List.mem_of_mem_take hx)
    exact (List.mem_filter.mp hx).1
  · refine .commitFirst (hf p₂) ht₂ (fun a ha => ?_) (fun p₃ j t₃ _ _ => ?_)
      fun _ _ _ _ _ _ _ => hQ _ _ _
    · obtain ⟨x, y, hw⟩ := hpending _ ha
      cases hw
    · have hstamped (w : Write) (hw : w ∈ pending.map (Write.stamp j)) :
          ∃ x y, w = .updateOutbox x y := by
        obtain ⟨w', hw', rfl⟩ := List.mem_map.mp hw
        obtain ⟨x, y, rfl⟩ := hpending w' hw'
        exact ⟨x, y, rfl⟩
      refine .of_quiet (fun r => ?_) (fun x hx => ?_) (fun w hw => ?_) (.of_none rfl fun w hw => ?_)
      · rw [onRun_of_forall_ne fun w hw => ?_]
        · exact .refl
        · obtain ⟨x, y, rfl⟩ := hstamped w hw
          simp [Write.run?]
      · obtain ⟨_, _, hw⟩ := hstamped _ hx
        cases hw
      · obtain ⟨x, y, rfl⟩ := hstamped w hw
        rfl
      · obtain ⟨x, y, rfl⟩ := hstamped w hw
        rfl

end Runscope
