import RlsTenants.Proof.Guard

/-!
# Past the cursor

What happens to a guarded connection other than a statement, and keeps its record
right: Django's `_commit` and `_rollback` (`transactionEnd_ends`), a context that ends
(`settle_ends`, `suspect_ends`), and a connection that is closed or opened again.
-/

namespace RlsTenants

open Txn Effect Comp

variable {T : Option ContextGucs → Prop} {H : Name → Prop} {strict : Bool} {L : Ran → Prop}
variable {c : Connection} {env : Env}

/-! ## Commits and rollbacks of the driver -/

/-- The record after the driver's end of a transaction, from the status before and after. -/
def endTracker (before after : Status) (committed : Option Bool) (t : SessionGUCs) : SessionGUCs :=
  if before ≠ .idle ∧ after = .idle then
    t.endTransaction (if before = .inError then some false else committed)
  else if before ≠ after then t.forget
  else t

theorem endTracker_raw (before after : Status) (committed : Option Bool) (t : SessionGUCs) :
    (endTracker before after committed t).raw = t.raw := by
  unfold endTracker
  split
  · simp
  · split <;> simp

theorem followDriverEnd_run (hq : c.faults = []) (before : Status) (committed : Option Bool) :
    followDriverEnd before committed c =
      (.ok (), { c with tracker := endTracker before c.status committed c.tracker }) := by
  simp only [followDriverEnd, bind_run, readStatus_run hq, endTracker]
  split
  · rfl
  · split <;> rfl

/-- How the record takes the end of a transaction, seen to start or not. -/
theorem Matches.ended {t : SessionGUCs} {o : Open Name Visible} {ok : Bool} (h : Matches T H ok t (.inTx o)) :
    (∀ b, b ≠ some true → Describes T (t.endTransaction b).values o.start.gucs) ∧
      (ok = true → o.failed = false → ∀ b, b ≠ some false →
        Describes T (t.endTransaction b).values o.level.session.gucs) := by
  have h : Tracks T H ok (t.syncTransaction .inTransaction) o := h
  cases ht : t.inTransaction with
  | true =>
    rw [sync_inside t ht] at h
    refine ⟨fun b hb => ?_, fun hok hf b hb => ?_⟩
    · rcases b with _ | _ | _
      · rw [endTransaction_values t ht]
        exact h.ended_unseen.1
      · exact h.rolledBack
      · exact absurd rfl hb
    · subst hok
      rcases b with _ | _ | _
      · rw [endTransaction_values t ht]
        exact h.ended_unseen.2 rfl hf
      · exact absurd rfl hb
      · exact h.committed hf
  | false =>
    rw [sync_fresh t ht] at h
    refine ⟨fun b _ => ?_, fun _ _ b _ => ?_⟩ <;> rw [endTransaction_outside ht]
    · exact h.base
    · exact (h.session rfl).1

theorem endTracker_idle {before : Status} (hb : before ≠ .idle) (committed : Option Bool) (t : SessionGUCs) :
    endTracker before .idle committed t =
      t.endTransaction (if before = .inError then some false else committed) := by
  unfold endTracker
  rw [if_pos ⟨hb, rfl⟩]

/-- The transaction is over: the record of its end describes what is left. -/
theorem Matches.endTracker {t : SessionGUCs} {o : Open Name Visible} {ok : Bool} (h : Matches T H ok t (.inTx o))
    {b : Option Bool} {v : Visible} (hv : v = o.start ∧ (b ≠ some true ∨ o.failed = true) ∨
      v = o.level.session ∧ o.failed = false ∧ b ≠ some false ∧ ok = true) :
    Matches T H ok (endTracker (statusOf (.inTx o)) .idle b t) (.idle v) := by
  rw [endTracker_idle (statusOf_ne_idle o)]
  refine matches_idle_of_values (endTransaction_inTransaction _ _) ?_
  rcases hv with ⟨rfl, hb⟩ | ⟨rfl, hf, hb, hok⟩
  · refine h.ended.1 _ ?_
    cases hf : o.failed with
    | true => simp [statusOf, hf]
    | false => simpa [statusOf, hf] using hb
  · exact h.ended.2 hok hf _ (by simpa [statusOf, hf] using hb)

/-- The session is still in the transaction. -/
theorem Matches.endTracker_stays {t : SessionGUCs} {o p : Open Name Visible} {ok : Bool}
    (h : Matches T H ok t (.inTx p)) (b : Option Bool) :
    Matches T H ok (RlsTenants.endTracker (statusOf (.inTx o)) (statusOf (.inTx p)) b t) (.inTx p) := by
  unfold RlsTenants.endTracker
  rw [if_neg fun h => statusOf_ne_idle p h.2]
  split
  · exact h.forget
  · exact h

/-- **Django's `_commit` and `_rollback`** keep the record right; a transaction marked for
rollback is never committed. -/
theorem transactionEnd_ends (h : Inv T H strict L c) {committed : Bool}
    (hc : committed = true → (strict || !c.needsRollback) = true) :
    Ends (fun _ => Inv T H strict L) (fun _ => Inv T H strict L) (transactionEnd committed c) := by
  simp only [transactionEnd, bind_run, reads_run, id]
  by_cases hcl : c.link = .closed
  · rw [if_pos (.inl hcl)]
    simp only [driverEnd, hcl]
    exact h
  rw [if_neg (by simp [hcl, h.raw hcl])]
  simp only [bind_run, readStatus_run h.quiet]
  -- what the record makes of the end, whichever way it is told
  let Told (b : Option Bool) (c' : Connection) : Prop := Sane L c' ∧ (c'.link = .up →
    Matches T H (strict || !c'.needsRollback) (endTracker c.status c'.status b c'.tracker) c'.pg)
  have hfinish : ∀ b c', Told b c' →
      Inv T H strict L { c' with tracker := endTracker c.status c'.status b c'.tracker } :=
    fun b c' h => ⟨h.1.track (endTracker_raw _ _ _ _), h.2⟩
  have hdrv : Ends (fun _ => Told (some committed)) (fun e => Told (if e.isDatabaseError then some false
      else if committed then none else some false)) (driverEnd committed c) := by
    by_cases hl : c.link = .up
    · cases hp : c.pg with
      | idle v =>
        have : driverEnd committed c = (.ok (), c) := by simp [driverEnd, hl, hp]
        rw [this]
        refine ⟨h.toSane, fun _ => ?_⟩
        rw [status_up hl, hp]
        have := h.session hl
        rw [hp] at this
        exact this
      | inTx o =>
        have hready : c.ready = .inTx o := by simp [Connection.ready, hp]
        have hm := h.session hl
        rw [hp] at hm
        have hst : c.status = statusOf (.inTx o) := by rw [status_up hl, hp]
        have htold : ∀ (b : Option Bool) (reach : Reach),
            (reach = .run → b ≠ some (!committed)) → (reach = .failed → b ≠ some true) →
            Matches T H (strict || !c.needsRollback) (endTracker c.status
              (statusOf (c.reached [if committed then .commit false else .rollback false] reach)) b c.tracker)
              (c.reached [if committed then .commit false else .rollback false] reach) := by
          intro b reach hrun hfailed
          rw [hst]
          cases reach with
          | notRun =>
            simp only [Connection.reached, hp]
            exact hm.endTracker_stays b
          | failed =>
            simp only [Connection.reached, hready]
            cases committed with
            | true => exact hm.endTracker (.inl ⟨rfl, .inl (hfailed rfl)⟩)
            | false => exact Matches.endTracker_stays (p := { o with failed := true }) (Tracks.fail hm) b
          | run =>
            simp only [Connection.reached, hready]
            cases committed with
            | true =>
              simp only [if_true, run_commit]
              refine hm.endTracker ?_
              cases hf : o.failed with
              | true => exact .inl ⟨by simp [Open.committed, hf], .inr rfl⟩
              | false => exact .inr ⟨by simp [Open.committed, hf], rfl, hrun rfl, hc rfl⟩
            | false =>
              simp only [Bool.false_eq_true, if_false, run_rollback]
              exact hm.endTracker (.inl ⟨rfl, .inl (by simpa using hrun rfl)⟩)
        rw [driverEnd_run hl hp]
        refine send_sane h.toSane
          (fun _ reach g hg => by rw [sightings_one (by split <;> simp)] at hg; simp at hg)
          (fun _ _ hs => ⟨hs, fun _ => ?_⟩) (fun _ e reach hr hs => ⟨hs, fun _ => ?_⟩)
          (fun _ _ hs hl => ⟨hs, fun hl' => absurd hl' hl⟩)
        · rw [status_up (c := c.sent _ _ _) hl]
          exact htold _ .run (by cases committed <;> simp) (by simp)
        · rw [status_up (c := c.failedAt _ _ _ _) hl]
          refine htold _ reach (fun hreach => ?_) (fun _ => ?_)
          · cases he : e.isDatabaseError with
            | false => cases committed <;> simp
            | true =>
              have := hr (.inr he) hreach
              cases committed <;> simp [run_commit, run_rollback] at this
          · cases e.isDatabaseError <;> cases committed <;> simp
    · have : driverEnd committed c = send none [if committed then .commit false else .rollback false] c := by
        unfold driverEnd
        cases hlk : c.link <;> first | rfl | exact absurd hlk hl | exact absurd hlk hcl
      rw [this, send_down hl]
      exact ⟨h.toSane.raised _, fun hl' => absurd hl' hl⟩
  refine Ends.bind_rule (Q := fun _ => Told (some committed)) (hdrv.attempt_rule fun e c' ht => ?_) fun _ c' ht => ?_
  · rw [bind_run, followDriverEnd_run ht.1.quiet]
    exact hfinish _ _ ht
  · rw [followDriverEnd_run ht.1.quiet]
    exact hfinish _ _ ht

/-! ## Contexts that end -/

theorem applyIfStale_keeps : Keeps (Inv T H strict L) (applyIfStale env) := fun _ h =>
  ((applyIfStale_ends h).mono (fun _ _ h => h.2.1.inv) fun _ _ h => h :
    Ends (fun _ => Inv T H strict L) (fun _ => Inv T H strict L) _).inv

theorem observe_keeps : Keeps (Inv T H strict L) observe := fun c h => by
  rw [observe_sane h.toSane]
  exact h.observed.inv

theorem forget_keeps : Keeps (Inv T H strict L) forget := fun _ h => h.forget

theorem settle_keeps (wroteNothing cleared : Bool) : Keeps (Inv T H strict L) (settle env wroteNothing cleared) :=
  settle_keeps_of observe_keeps applyIfStale_keeps forget_keeps wroteNothing cleared

theorem suspect_keeps (under : Bool) : Keeps (Inv T H strict L) (suspect under) :=
  suspect_keeps_of observe_keeps under fun _ h => h.suspect under

/-! ## Sessions that end -/

theorem close_ends (h : Inv T H strict L c) :
    Ends (fun _ => Inv T H strict L) (fun _ => Inv T H strict L) (close c) := by
  rw [close_run h.quiet]
  exact .of_down h.toSane.shut (shut_link c)

end RlsTenants
