import HighCache.Benchmark.Account
import HighCache.Protocol.Incremental

/-!
# A worker keeps its account

Every function of the worker makes the moves of the account and no others, so the account is right
at every stop. When there is no active connection, and nothing is left to issue, everything has been
counted; that is how each way out of `run` ends.

Issuing needs the ids of the plan to be distinct: then the next id is not yet among the pending
ones, and `add` puts it under way.
-/

namespace HighCache

open Protocol

namespace Benchmark

namespace ClientWorker

variable {job : Job} {n : ℕ} {w w' : ClientWorker job n}

/-! ## The handlers

A handler that only writes or reads changes buffers and counters, which the account does not
mention. It has to be shown all the same that it does not change which connections are active. -/

/-- The account has been kept, and every connection is as active as before. -/
structure Serves (w w' : ClientWorker job n) : Prop where
  balanced : w'.Balanced
  active : ∀ i, (w'.connections i).active = (w.connections i).active

theorem Balanced.serves (h : w.Balanced) : Serves w w := ⟨h, fun _ ↦ rfl⟩

private theorem active_of_others {i : Fin n}
    (hothers : ∀ j, j ≠ i → w'.connections j = w.connections j)
    (hactive : (w'.connections i).active = (w.connections i).active) (j : Fin n) :
    (w'.connections j).active = (w.connections j).active := by
  by_cases hj : j = i
  · rw [hj, hactive]
  · rw [hothers j hj]

theorem Serves.trans {w'' : ClientWorker job n} (h : Serves w w') (h' : Serves w' w'') :
    Serves w w'' :=
  ⟨h'.balanced, fun i ↦ (h'.active i).trans (h.active i)⟩

theorem Balanced.setConnection (h : w.Balanced) {i : Fin n} {c : ClientConnection}
    (htracker : c.tracker = (w.connections i).tracker)
    (hactive : c.active = (w.connections i).active) : Serves w (w.setConnection i c) := by
  have hsame : ∀ j, ((w.setConnection i c).connections j).tracker = (w.connections j).tracker
      ∧ ((w.setConnection i c).connections j).active = (w.connections j).active := by
    intro j
    by_cases hj : j = i
    · subst hj
      rw [setConnection_self]
      exact ⟨htracker, hactive⟩
    · rw [setConnection_of_ne hj]
      exact ⟨rfl, rfl⟩
  exact ⟨h.congr rfl hsame rfl rfl rfl rfl, fun j ↦ (hsame j).2⟩

theorem Balanced.now (h : w.Balanced) : Serves w w.now.2 :=
  ⟨h.congr rfl (fun _ ↦ ⟨rfl, rfl⟩) rfl rfl rfl rfl, fun _ ↦ rfl⟩

theorem Balanced.recordError (h : w.Balanced) (message : String) :
    (w.recordError message).Balanced :=
  h.congr rfl (fun _ ↦ ⟨rfl, rfl⟩) rfl rfl rfl rfl

theorem Balanced.handleWritable {i : Fin n} (results : List SendResult) (h : w.Balanced) :
    (handleWritable i results w).Ensures (fun r ↦ Serves w r.2) Buffer.Full := by
  induction results generalizing w with
  | nil => exact h.serves
  | cons result results ih =>
    unfold ClientWorker.handleWritable
    dsimp only
    split_ifs with hempty
    · exact h.serves
    · cases result with
      | accepted count pos =>
        obtain ⟨output, hretrieve, -⟩ :=
          Buffer.retrieve_eq (min_le_right count (w.connections i).output.readableBytes)
        dsimp only
        rw [hretrieve, Except.ok_bind_eq]
        have hserves : Serves w (w.setConnection i { w.connections i with output := output }) :=
          h.setConnection rfl rfl
        exact (ih hserves.balanced).mono fun r hr ↦ hserves.trans hr
      | interrupted => exact ih h
      | wouldBlock => exact h.serves
      | failed => exact h.serves

/-! ## The ways out

The loop of `run` is left when there is no active connection or nothing is left, or by an exception,
which is caught and answered by failing everything. In each case all that is not counted yet is
counted. -/

theorem Balanced.failAll (h : w.Balanced) (i : Fin n) : (w.failAll i).2.Balanced := by
  refine h.settle (List.Perm.refl _) ?_ h.successful ?_ fun _ ↦ rfl
  · rw [List.append_assoc]
    exact List.Perm.refl _
  · show w.statistics.failed + _ = _
    rw [h.failed, List.length_append, RequestTracker.length_ids]

private theorem failAll_active (i : Fin n) (w : ClientWorker job n) :
    ((w.failAll i).2.connections i).active = false := by
  rw [ClientWorker.failAll, settle_self]

theorem Balanced.failConnection (h : w.Balanced) (i : Fin n) (error : String) :
    (w.failConnection i error).Balanced := by
  rw [ClientWorker.failConnection]
  split_ifs
  · exact h
  · dsimp only
    split_ifs
    · exact (h.failAll i).recordError error
    · exact h.failAll i

private theorem failUnissued_next (h : w.next ≤ job.endIndex) :
    w.failUnissued.next = job.endIndex := by
  rw [ClientWorker.failUnissued]
  split_ifs
  · rfl
  · omega

private theorem failUnissued_connections (w : ClientWorker job n) :
    w.failUnissued.connections = w.connections := by
  rw [ClientWorker.failUnissued]
  split_ifs <;> rfl

/-- Where no connection is active and nothing is left to issue, everything has been counted. -/
theorem Balanced.handled_of_quiet (h : w.Balanced)
    (hinactive : ∀ i, (w.connections i).active = false) :
    w.failUnissued.Balanced
      ∧ w.failUnissued.statistics.handled = job.endIndex - job.beginIndex := by
  have hfail := h.failUnissued
  refine ⟨hfail, ?_⟩
  have hbooks := hfail.books
  have hunissued : w.failUnissued.books.unissued = 0 := by
    show job.endIndex - w.failUnissued.next = 0
    rw [failUnissued_next h.next_le, Nat.sub_self]
  have hpending : w.failUnissued.books.pending = 0 := by
    show ∑ i, (w.failUnissued.connections i).tracker.size = 0
    rw [failUnissued_connections]
    refine Finset.sum_eq_zero fun i _ ↦ ?_
    rw [RequestTracker.size, h.quiet i (hinactive i), List.length_nil]
  rwa [hunissued, hpending] at hbooks

private theorem inactive_of_count (h : w.activeConnectionCount = 0) (i : Fin n) :
    (w.connections i).active = false := by
  have hzero := List.countP_eq_zero.mp h i (List.mem_finRange i)
  simpa using hzero

private theorem Accounts.handled_of_not_lt (h : w.Accounts)
    (hdone : ¬w.statistics.handled < job.endIndex - job.beginIndex) :
    w.statistics.handled = job.endIndex - job.beginIndex := by
  have hbooks := h.books
  rw [show w.books.handled = w.statistics.handled from rfl] at hbooks
  omega

theorem Balanced.leave (h : w.Balanced) :
    w.leave.Ensures (fun r ↦ ∀ w' ∈ r, w'.Balanced
      ∧ w'.statistics.handled = job.endIndex - job.beginIndex) Buffer.Full := by
  rw [ClientWorker.leave, Checked.sub_eq (h.begin_le.trans h.next_le), Except.ok_bind_eq]
  split_ifs with hdone hnone
  · rintro w' ⟨⟩
    exact h.handled_of_quiet (inactive_of_count hnone)
  · rintro w' ⟨⟩
  · rintro w' ⟨⟩
    exact ⟨h, h.handled_of_not_lt hdone⟩

theorem Balanced.failLoop (is : List (Fin n)) (h : w.Balanced) :
    let w' := is.foldl (fun w i ↦ if (w.connections i).active then (w.failAll i).2 else w) w
    w'.Balanced ∧ ∀ j, (w.connections j).active = false ∨ j ∈ is →
      (w'.connections j).active = false := by
  induction is generalizing w with
  | nil => exact ⟨h, fun j hj ↦ hj.resolve_right List.not_mem_nil⟩
  | cons i is ih =>
    rw [List.foldl_cons]
    by_cases hactive : (w.connections i).active = true
    · rw [if_pos hactive]
      obtain ⟨hbalanced, hinactive⟩ := ih (h.failAll i)
      refine ⟨hbalanced, fun j hj ↦ hinactive j ?_⟩
      by_cases hji : j = i
      · subst hji
        exact .inl (failAll_active j w)
      · rw [ClientWorker.failAll, settle_of_ne hji]
        exact hj.imp_right fun hmem ↦ (List.mem_cons.mp hmem).resolve_left hji
    · rw [if_neg hactive]
      obtain ⟨hbalanced, hinactive⟩ := ih h
      refine ⟨hbalanced, fun j hj ↦ hinactive j ?_⟩
      by_cases hji : j = i
      · subst hji
        exact .inl (by simpa using hactive)
      · exact hj.imp_right fun hmem ↦ (List.mem_cons.mp hmem).resolve_left hji

/-- **After `fail_everything` everything has been counted.** -/
theorem Balanced.failEverything (h : w.Balanced) :
    w.failEverything.Balanced
      ∧ w.failEverything.statistics.handled = job.endIndex - job.beginIndex := by
  obtain ⟨hbalanced, hinactive⟩ := h.failLoop (List.finRange n)
  exact hbalanced.handled_of_quiet fun i ↦ hinactive i (.inr (List.mem_finRange i))

/-! ## Issuing and completing

With distinct ids an id that comes back names one operation. A response for an id that is not
pending is an exception in the source, and completing one takes it off the tracker it is in. -/

section Distinct

variable (hids : (job.load.plan.map Operation.requestId).Nodup)
include hids

theorem Accounts.nodup (h : w.Accounts) :
    ((↑(w.tally.successes ++ w.tally.failures) : Multiset UInt64)
      + ∑ i, (↑(w.connections i).tracker.ids : Multiset UInt64)
      + ↑(job.load.idsBetween w.next job.endIndex)).Nodup := by
  rw [h.ids, Multiset.coe_nodup]
  exact job.load.nodup_idsBetween hids _ _

private theorem Accounts.nodup_ids (h : w.Accounts) (i : Fin n) :
    (w.connections i).tracker.ids.Nodup := by
  rw [← Multiset.coe_nodup]
  refine Multiset.nodup_of_le ?_ (h.nodup hids)
  calc (↑(w.connections i).tracker.ids : Multiset UInt64)
      ≤ ∑ j, ↑(w.connections j).tracker.ids :=
        Finset.single_le_sum (fun _ _ ↦ Multiset.zero_le _) (Finset.mem_univ i)
    _ ≤ ↑(w.tally.successes ++ w.tally.failures) + ∑ j, ↑(w.connections j).tracker.ids :=
        Multiset.le_add_left _ _
    _ ≤ _ := Multiset.le_add_right _ _

private theorem Accounts.notMem_ids (h : w.Accounts) (hlt : w.next < job.endIndex)
    {operation : Operation} (hplanned : job.load.plan[w.next]? = some operation) (i : Fin n) :
    operation.requestId ∉ (w.connections i).tracker.ids := by
  intro hmem
  have hdisjoint := (Multiset.nodup_add.mp (h.nodup hids)).2.2
  refine Multiset.disjoint_left.mp hdisjoint (?_ : operation.requestId ∈ _) ?_
  · refine Multiset.mem_add.mpr (.inr (Multiset.mem_sum.mpr ⟨i, Finset.mem_univ i, ?_⟩))
    exact Multiset.mem_coe.mpr hmem
  · rw [job.load.idsBetween_cons hlt hplanned]
    exact Multiset.mem_coe.mpr List.mem_cons_self

/-- A round of `fill_pipeline` throws nothing, and an operation that was not issued is under way. -/
theorem Balanced.issue (h : w.Balanced) (hlt : w.next < job.endIndex) {i : Fin n}
    (hactive : (w.connections i).active = true) :
    (w.issue i).Ensures (fun r ↦ Serves w r.2) Buffer.Full := by
  have hplan : w.next < job.load.plan.length := hlt.trans_le h.end_le
  obtain ⟨operation, hplanned⟩ : ∃ operation, job.load.plan[w.next]? = some operation :=
    ⟨_, List.getElem?_eq_getElem hplan⟩
  obtain ⟨key, hkey, frame, hencode⟩ :=
    job.load.exists_encodeRequest (List.mem_of_getElem? hplanned)
  have hadd := RequestTracker.add_of_notMem (h.notMem_ids hids hlt hplanned i) operation.opcode
    (w.clock 0)
  -- neither the encoder nor the tracker throws, so the operation is not lost
  simp only [ClientWorker.issue, hplanned, hkey, hencode, ClientWorker.now]
  have happend := (w.connections i).output.append_ensures frame
  cases houtput : (w.connections i).output.append frame with
  | error fault =>
    rw [houtput] at happend
    exact happend.2
  | ok output =>
    rw [Except.ok_bind_eq, hadd]
    have hissues : Issues i operation w (ClientWorker.setConnection i
        { w.connections i with
          output := output
          tracker := ⟨(w.connections i).tracker.pending
            ++ [(operation.requestId, ⟨operation.opcode, w.clock 0⟩)]⟩ }
        { w with next := w.next + 1, clock := fun k ↦ w.clock (k + 1) }) := {
      next := rfl
      planned := hplanned
      others := fun j hj ↦ setConnection_of_ne hj _ _
      added := by rw [setConnection_self]; exact List.map_append
      active := by rw [setConnection_self]; exact hactive
      tally := rfl
      statistics := rfl }
    refine ⟨Accounts.balanced_note (h.issues hissues hlt) h.noted, ?_⟩
    exact active_of_others hissues.others (hissues.active.trans hactive.symm)

theorem Balanced.fillLoop {i : Fin n} (fuel : ℕ) (h : w.Balanced)
    (hactive : (w.connections i).active = true) :
    (fillLoop i fuel w).Ensures (fun r ↦ Serves w r.2) Buffer.Full := by
  induction fuel generalizing w with
  | zero => exact h.serves
  | succ fuel ih =>
    rw [ClientWorker.fillLoop]
    split_ifs with hroom
    · refine (h.issue hids hroom.2 hactive).bind ?_
      rintro ⟨result, w'⟩ hserves
      cases result with
      | error what => exact hserves
      | ok _ =>
        refine (ih hserves.balanced ((hserves.active i).trans hactive)).mono fun r hr ↦ ?_
        exact hserves.trans hr
    · exact h.serves

theorem Balanced.complete (h : w.Balanced) {i : Fin n} {response : Response} {finish : ℤ}
    (hcomplete : w.complete i response finish = .ok w') : Serves w w' := by
  rw [ClientWorker.complete] at hcomplete
  obtain ⟨⟨statistics, tracker⟩, htracker, hresult⟩ := Except.bind_eq_ok_iff.mp hcomplete
  obtain ⟨request, hmem, rfl, rfl⟩ := RequestTracker.complete_eq_ok htracker
  have hperm := (KeyedList.perm_cons_without (h.nodup_ids hids i) hmem).map Prod.fst
  -- a connection with a request under way is active
  have hactive : (w.connections i).active = true := by
    by_contra hactive
    rw [h.quiet i (by simpa using hactive)] at hmem
    cases hmem
  have hleft := hperm.trans (List.perm_append_singleton _ _).symm
  cases hresult
  refine ⟨?_, active_of_others (fun j hj ↦ settle_of_ne hj _ _ _ _) (by rw [settle_self])⟩
  have hquiet : (w.connections i).active = false →
      KeyedList.without Prod.fst response.requestId (w.connections i).tracker.pending = [] :=
    fun hinactive ↦ absurd (hactive.symm.trans hinactive) (by decide)
  rcases w.statistics.recordResponse_cases request.opcode response.status
    (finish - request.start) with ⟨hsuccess, hfailed⟩ | ⟨hsuccess, hfailed⟩
  · rw [if_neg (by omega)]
    refine h.settle hleft ?_ ?_ (hfailed.trans h.failed) hquiet
    · rw [List.append_assoc, List.append_assoc]
      exact List.perm_append_comm.append_left _
    · rw [hsuccess, h.successful, List.length_append, List.length_singleton]
  · rw [if_pos hsuccess]
    refine h.settle hleft ?_ (hsuccess.trans h.successful) ?_ hquiet
    · rw [List.append_assoc]
    · rw [hfailed, h.failed, List.length_append, List.length_singleton]

theorem Balanced.decodeLoop {i : Fin n} (fuel : ℕ) (h : w.Balanced) :
    (decodeLoop i fuel w).Ensures (fun r ↦ Serves w r.2) Buffer.Full := by
  induction fuel generalizing w with
  | zero => exact h.serves
  | succ fuel ih =>
    rw [ClientWorker.decodeLoop]
    split_ifs with hempty
    · exact h.serves
    · obtain ⟨decoded, hdecode⟩ :=
        decodeResponse_follows.incremental.total (w.connections i).input ⟨0, .ok, []⟩ .none
      have hinput : Serves w (w.setConnection i
          { w.connections i with input := decoded.input }) := h.setConnection rfl rfl
      rw [hdecode, Except.ok_bind_eq]
      dsimp only
      cases hresult : decoded.result with
      | incomplete => exact hinput
      | error => exact hinput
      | complete =>
        dsimp only
        have hnow := hinput.trans hinput.balanced.now
        generalize (w.setConnection i
          { w.connections i with input := decoded.input }).now = reading at hnow ⊢
        obtain ⟨finish, w₁⟩ := reading
        cases hcomplete : w₁.complete i decoded.message finish with
        | error what => exact hnow
        | ok w' =>
          have hserves := hnow.trans (hnow.balanced.complete hids hcomplete)
          exact (ih hserves.balanced).mono fun r hr ↦ hserves.trans hr

theorem Balanced.handleReadable {i : Fin n} (results : List RecvResult) (h : w.Balanced) :
    (handleReadable i results w).Ensures (fun r ↦ Serves w r.2) Buffer.Full := by
  induction results generalizing w with
  | nil => exact h.serves
  | cons result results ih =>
    cases result with
    | received bytes pos le =>
      rw [ClientWorker.handleReadable]
      have happend := (w.connections i).input.append_ensures bytes
      cases hinput : (w.connections i).input.append bytes with
      | error fault =>
        rw [hinput] at happend
        exact happend.2
      | ok input =>
        rw [Except.ok_bind_eq]
        have hserves : Serves w (w.setConnection i { w.connections i with input := input }) :=
          h.setConnection rfl rfl
        refine (hserves.balanced.decodeLoop hids _).bind ?_
        rintro ⟨result, w'⟩ hdecoded
        cases result with
        | error what => exact hserves.trans hdecoded
        | ok _ =>
          refine (ih hdecoded.balanced).mono fun r hr ↦ ?_
          exact hserves.trans (hdecoded.trans hr)
    | closed => exact h.serves
    | interrupted => exact ih h
    | wouldBlock => exact h.serves
    | failed => exact h.serves

theorem Balanced.tryEvent (h : w.Balanced) {i : Fin n}
    (hactive : (w.connections i).active = true) (event : ReadyEvent) :
    (w.tryEvent i event).Ensures (fun r ↦ Serves w r.2) Buffer.Full := by
  rw [ClientWorker.tryEvent]
  refine Except.Ensures.bind (Q := fun r ↦ Serves w r.2) ?_ ?_
  · split_ifs
    · exact h.handleWritable event.sends
    · exact h.serves
  rintro ⟨keep, w₁⟩ hwritten
  refine Except.Ensures.bind (Q := fun r ↦ Serves w r.2) ?_ ?_
  · split_ifs
    · exact (hwritten.balanced.handleReadable hids event.receives).mono fun _ hr ↦ hwritten.trans hr
    · exact hwritten
  rintro ⟨result, w₂⟩ hread
  cases result with
  | error what => exact hread
  | ok keep =>
    dsimp only
    split_ifs
    · exact hread
    · refine (hread.balanced.fillLoop hids _ ((hread.active i).trans hactive)).bind ?_
      rintro ⟨result, w₃⟩ hfilled
      cases result with
      | error what => exact hread.trans hfilled
      | ok _ => exact hread.trans hfilled

theorem Balanced.handleEvent (h : w.Balanced) {i : Fin n}
    (hactive : (w.connections i).active = true) (event : ReadyEvent) :
    (w.handleEvent i event).Ensures Balanced Buffer.Full := by
  refine (h.tryEvent hids hactive event).bind ?_
  rintro ⟨result, w'⟩ hserves
  rcases result with what | _ | _
  · exact hserves.balanced.failConnection i what
  · exact hserves.balanced.failConnection i _
  · exact hserves.balanced

theorem Balanced.eventLoop (events : List ReadyEvent) (h : w.Balanced) :
    (eventLoop events w).Ensures Balanced Buffer.Full := by
  induction events generalizing w with
  | nil => exact h
  | cons event events ih =>
    rw [ClientWorker.eventLoop]
    cases w.connectionIndexes.lookup event.fd with
    | none => exact ih h
    | some i =>
      dsimp only
      split_ifs with hactive
      · exact ih h
      · exact (h.handleEvent hids (by simpa using hactive) event).bind fun w' hw' ↦ ih hw'

theorem Balanced.startLoop (modified : Fin n → CallResult) (is : List (Fin n)) (h : w.Balanced)
    (hactive : ∀ i, (w.connections i).active = true) :
    (startLoop modified is w).Ensures (fun r ↦ r.2.Balanced) Buffer.Full := by
  induction is generalizing w with
  | nil => exact h
  | cons i is ih =>
    refine (h.fillLoop hids _ (hactive i)).bind ?_
    rintro ⟨result, w'⟩ hserves
    cases result with
    | error what => exact hserves.balanced
    | ok _ =>
      dsimp only
      cases updateInterest (modified i) with
      | error what => exact hserves.balanced
      | ok _ => exact ih hserves.balanced fun j ↦ (hserves.active j).trans (hactive j)

theorem Balanced.waitLoop (waits : List WaitResult) (h : w.Balanced) :
    (waitLoop waits w).Ensures
      (fun r ↦ r.2.Balanced ∧ (r.1 = .ok () →
        r.2.statistics.handled = job.endIndex - job.beginIndex)) Buffer.Full := by
  induction waits generalizing w with
  | nil =>
    refine h.leave.bind fun r hr ↦ ?_
    cases r with
    | none => exact ⟨h, by rintro ⟨⟩⟩
    | some w' => exact ⟨(hr w' rfl).1, fun _ ↦ (hr w' rfl).2⟩
  | cons wait waits ih =>
    refine h.leave.bind fun r hr ↦ ?_
    cases r with
    | some w' => exact ⟨(hr w' rfl).1, fun _ ↦ (hr w' rfl).2⟩
    | none =>
      cases wait with
      | ready events pos le => exact (h.eventLoop hids events).bind fun w' hw' ↦ ih hw'
      | timedOut => exact ⟨h, by rintro ⟨⟩⟩
      | interrupted => exact ih h
      | failed description => exact ⟨h, by rintro ⟨⟩⟩

/-! ### The whole run -/

/-- **`run` ends with everything counted.** -/
theorem Balanced.run (h : w.Balanced) (hactive : ∀ i, (w.connections i).active = true)
    (answers : Answers n) :
    (w.run answers).Ensures
      (fun w' ↦ w'.Balanced ∧ w'.statistics.handled = job.endIndex - job.beginIndex)
      Buffer.Full := by
  have htry : (w.tryRun answers).Ensures
      (fun r ↦ r.2.Balanced ∧ (r.1 = .ok () →
        r.2.statistics.handled = job.endIndex - job.beginIndex)) Buffer.Full := by
    refine (h.startLoop hids answers.modified _ hactive).bind ?_
    rintro ⟨result, w'⟩ hw'
    cases result with
    | error what => exact ⟨hw', by rintro ⟨⟩⟩
    | ok _ => exact hw'.waitLoop hids answers.waits
  refine htry.bind ?_
  rintro ⟨result, w'⟩ ⟨hw', hhandled⟩
  cases result with
  | error what => exact (hw'.recordError what).failEverything
  | ok _ => exact ⟨hw', hhandled rfl⟩

end Distinct

theorem balanced_new {answers : Answers n} (hbegin : job.beginIndex ≤ job.endIndex)
    (hend : job.endIndex ≤ job.load.plan.length) (hnew : new job answers = .ok w) :
    w.Balanced ∧ ∀ i, (w.connections i).active = true := by
  rw [new] at hnew
  obtain ⟨-, -, hnew⟩ := Except.bind_eq_ok_iff.mp hnew
  obtain ⟨fds, -, hnew⟩ := Except.bind_eq_ok_iff.mp hnew
  cases hnew
  refine ⟨Accounts.balanced_note ?_ (by simp), fun _ ↦ rfl⟩
  exact {
    begin_le := le_refl _
    next_le := hbegin
    end_le := hend
    ids := by simp [RequestTracker.ids]
    successful := rfl
    failed := rfl
    quiet := fun _ _ ↦ rfl }

/-- Where everything has been counted, each operation has been counted once. -/
theorem Accounts.perm_of_handled (h : w.Accounts)
    (hhandled : w.statistics.handled = job.endIndex - job.beginIndex) :
    (w.tally.successes ++ w.tally.failures).Perm
      (job.load.idsBetween job.beginIndex job.endIndex) := by
  rw [← Multiset.coe_eq_coe]
  refine Multiset.eq_of_le_of_card_le ?_ ?_
  · rw [← h.ids, add_assoc]
    exact Multiset.le_add_right _ _
  · rw [Multiset.coe_card, Multiset.coe_card, job.load.length_idsBetween h.end_le, ← hhandled,
      List.length_append, ← h.successful, ← h.failed]
    rfl

end ClientWorker

end Benchmark

end HighCache
