import HighCache.Benchmark.Account
import HighCache.Protocol.Incremental

/-!
# The buffers of a worker

A worker is stopped by a buffer that cannot grow, and such a buffer would have to hold more than
`2 ^ 62` bytes. An input never comes near that: between two events it holds an unfinished response,
and while it is read at most one chunk more. An output holds requests that have not been sent, which
may be all that were issued if the server answers what it has not received. So it takes a plan whose
requests are longer than `2 ^ 62` bytes to stop a worker (`Outgrown`).

None of this depends on the account, nor on the ids being distinct. The two are proved apart and put
together where the threads are.

## An input that has not been decoded

While a connection is read its own input may be too long for a moment, and it stays too long if what
it holds is no response. Then the connection is given up. So the bounds are stated with an exception
for one connection, which is settled or given up before the next event.
-/

namespace HighCache

open Protocol

namespace Benchmark

/-- A buffer cannot grow, and as many requests as `count` may be too long for a buffer. -/
def Outgrown (count : ℕ) (fault : Fault) : Prop :=
  Buffer.Full fault ∧ 2 ^ 62 < count * maxRequestFrameSize

theorem Outgrown.mono {count count' : ℕ} (hle : count ≤ count') {fault : Fault}
    (h : Outgrown count fault) : Outgrown count' fault :=
  ⟨h.1, h.2.trans_le (Nat.mul_le_mul_right _ hle)⟩

/-- If a buffer cannot grow, the plan is too long. -/
def Excused (load : Workload) (fault : Fault) : Prop :=
  Buffer.Full fault → 2 ^ 62 < load.plan.length * maxRequestFrameSize

/-- What is stopped by nothing but a buffer, and only with an excuse, is stopped by a plan that is
too long. -/
theorem ensures_outgrown {α : Type} {load : Workload} {x : Except Fault α} {Q : α → Prop}
    (h : x.Ensures Q Buffer.Full) (hexcused : x.Ensures (fun _ ↦ True) (Excused load)) :
    x.Ensures Q (Outgrown load.plan.length) :=
  ((h.and hexcused).mono fun _ ↦ And.left).mono_error
    fun _ hfault ↦ ⟨hfault.1, hfault.2 hfault.1⟩

private theorem excused_wrap (load : Workload) : Excused load .wrap := by
  rintro (h | h) <;> cases h

private theorem excused_invalidIterator (load : Workload) : Excused load .invalidIterator := by
  rintro (h | h) <;> cases h

private theorem sub_excused (load : Workload) (a b : ℕ) :
    (Checked.sub a b).Ensures (fun _ ↦ True) (Excused load) := by
  unfold Checked.sub
  split
  · exact trivial
  · exact excused_wrap load

private theorem mul_excused (load : Workload) (a b : ℕ) :
    (Checked.mul a b).Ensures (fun _ ↦ True) (Excused load) := by
  unfold Checked.mul
  split
  · exact trivial
  · exact excused_wrap load

namespace ClientWorker

variable {job : Job} {n : ℕ} {w w' : ClientWorker job n} {busy : Option (Fin n)} {i : Fin n}

/-! ## The bounds -/

/-- The input of a connection is shorter than the longest response. -/
def Settled (i : Fin n) (w : ClientWorker job n) : Prop :=
  (w.connections i).input.readableBytes < maxResponseFrameSize

/-- The buffers are within their bounds, but for the input of the connection that is `busy`. An
output holds no more than the requests that were issued. -/
structure Bounded (busy : Option (Fin n)) (w : ClientWorker job n) : Prop where
  output : ∀ i, (w.connections i).output.readableBytes ≤ w.next * maxRequestFrameSize
  input : ∀ i, busy ≠ some i → (w.connections i).active = true → w.Settled i

theorem Bounded.settled (h : w.Bounded (some i)) (hsettled : w.Settled i) : w.Bounded none where
  output := h.output
  input j _ hactive := by
    by_cases hj : j = i
    · exact hj ▸ hsettled
    · exact h.input j (fun heq ↦ hj (Option.some.inj heq).symm) hactive

theorem Bounded.exempt (h : w.Bounded none) (i : Fin n) : w.Bounded (some i) where
  output := h.output
  input j _ := h.input j (by rintro ⟨⟩)

theorem Bounded.congr (h : w.Bounded busy) (hnext : w.next ≤ w'.next)
    (hconnections : ∀ i, (w'.connections i).output = (w.connections i).output
      ∧ (w'.connections i).input = (w.connections i).input
      ∧ ((w'.connections i).active = true → (w.connections i).active = true)) :
    w'.Bounded busy where
  output j := by
    rw [(hconnections j).1]
    exact (h.output j).trans (Nat.mul_le_mul_right _ hnext)
  input j hj hactive := by
    rw [Settled, (hconnections j).2.1]
    exact h.input j hj ((hconnections j).2.2 hactive)

theorem Bounded.setConnection (h : w.Bounded busy) {c : ClientConnection}
    (houtput : c.output.readableBytes ≤ w.next * maxRequestFrameSize)
    (hinput : busy ≠ some i → c.active = true → c.input.readableBytes < maxResponseFrameSize) :
    (w.setConnection i c).Bounded busy where
  output j := by
    by_cases hj : j = i
    · rw [hj, setConnection_self]
      exact houtput
    · rw [setConnection_of_ne hj]
      exact h.output j
  input j := by
    by_cases hj : j = i
    · subst hj
      rw [Settled, setConnection_self]
      exact hinput
    · rw [Settled, setConnection_of_ne hj]
      exact h.input j

/-! ## The handlers

Sending makes an output shorter, and issuing makes it longer by one request. Nothing but reading
touches an input. -/

theorem Bounded.handleWritable (results : List SendResult) (h : w.Bounded busy) :
    (handleWritable i results w).Ensures
      (fun r ↦ r.2.Bounded busy ∧ (r.2.connections i).input = (w.connections i).input)
      (Excused job.load) := by
  induction results generalizing w with
  | nil => exact ⟨h, rfl⟩
  | cons result results ih =>
    unfold ClientWorker.handleWritable
    dsimp only
    split_ifs with hempty
    · exact ⟨h, rfl⟩
    · cases result with
      | accepted count pos =>
        obtain ⟨output, hretrieve, hview, -⟩ :=
          Buffer.retrieve_eq (min_le_right count (w.connections i).output.readableBytes)
        have hshorter : output.readableBytes ≤ (w.connections i).output.readableBytes := by
          rw [← Buffer.length_readableView, hview, List.length_drop, Buffer.length_readableView]
          exact Nat.sub_le _ _
        have hset : (w.setConnection i { w.connections i with output := output }).Bounded busy :=
          h.setConnection (hshorter.trans (h.output i)) (h.input i)
        dsimp only
        rw [hretrieve, Except.ok_bind_eq]
        refine (ih hset).mono fun r hr ↦ ⟨hr.1, hr.2.trans ?_⟩
        rw [setConnection_self]
      | interrupted => exact ih h
      | wouldBlock => exact ⟨h, rfl⟩
      | failed => exact ⟨h, rfl⟩

/-- One more request is in the output of a connection. -/
private theorem Bounded.extend (h : w.Bounded busy) {c : ClientConnection}
    (houtput : c.output.readableBytes ≤ (w.next + 1) * maxRequestFrameSize)
    (hinput : c.input = (w.connections i).input) (hactive : c.active = (w.connections i).active)
    (clock : ℕ → ℤ) :
    (ClientWorker.setConnection i c
        ({ w with next := w.next + 1, clock := clock } : ClientWorker job n)).note.Bounded busy
      ∧ ((ClientWorker.setConnection i c
        ({ w with next := w.next + 1, clock := clock } : ClientWorker job n)).note.connections
          i).input = (w.connections i).input := by
  have hissued : Bounded busy { w with next := w.next + 1, clock := clock } :=
    h.congr (Nat.le_succ _) fun _ ↦ ⟨rfl, rfl, id⟩
  have hset := hissued.setConnection (i := i) houtput fun hne hc ↦ by
    rw [hinput]
    exact h.input i hne (hactive ▸ hc)
  refine ⟨⟨hset.output, hset.input⟩, Eq.trans ?_ hinput⟩
  exact congrArg ClientConnection.input (setConnection_self i c _)

theorem Bounded.issue (h : w.Bounded busy) :
    (w.issue i).Ensures
      (fun r ↦ r.2.Bounded busy ∧ (r.2.connections i).input = (w.connections i).input)
      (Excused job.load) := by
  unfold ClientWorker.issue
  cases hplanned : job.load.plan[w.next]? with
  | none => exact excused_invalidIterator _
  | some operation =>
    dsimp only
    cases (makeKeys job.load.keySpace)[operation.keyIndex]? with
    | none => exact excused_invalidIterator _
    | some key =>
      dsimp only
      split
      · exact ⟨h.congr (Nat.le_succ _) fun _ ↦ ⟨rfl, rfl, id⟩, rfl⟩
      rename_i frame hencode
      have hlength : frame.length ≤ maxRequestFrameSize := length_encodeRequest_le hencode
      have hlt : w.next < job.load.plan.length := (List.getElem?_eq_some_iff.mp hplanned).1
      have hold := h.output i
      have happend := (w.connections i).output.append_ensures frame
      simp only [ClientWorker.now]
      cases houtput : (w.connections i).output.append frame with
      | error fault =>
        -- all requests issued so far would be in this output, and the one that is issued now
        rw [houtput] at happend
        have hplan := Nat.mul_le_mul_right maxRequestFrameSize (show w.next + 1 ≤ _ from hlt)
        rw [Nat.succ_mul] at hplan
        exact fun _ ↦ by have := happend.1; omega
      | ok output =>
        rw [houtput] at happend
        have hnew : output.readableBytes ≤ (w.next + 1) * maxRequestFrameSize := by
          have hview : output.readableView = _ := happend
          rw [← Buffer.length_readableView, hview, List.length_append, Buffer.length_readableView,
            Nat.succ_mul]
          omega
        rw [Except.ok_bind_eq]
        split
        · exact h.extend (c := { w.connections i with output := output }) hnew rfl rfl _
        · exact h.extend (c := { w.connections i with output := output, tracker := _ }) hnew rfl rfl
            _

theorem Bounded.fillLoop (fuel : ℕ) (h : w.Bounded busy) :
    (fillLoop i fuel w).Ensures
      (fun r ↦ r.2.Bounded busy ∧ (r.2.connections i).input = (w.connections i).input)
      (Excused job.load) := by
  induction fuel generalizing w with
  | zero => exact ⟨h, rfl⟩
  | succ fuel ih =>
    rw [ClientWorker.fillLoop]
    split_ifs with hroom
    · refine h.issue.bind ?_
      rintro ⟨result, w'⟩ ⟨h', hinput⟩
      cases result with
      | error what => exact ⟨h', hinput⟩
      | ok _ => exact (ih h').mono fun r hr ↦ ⟨hr.1, hr.2.trans hinput⟩
    · exact ⟨h, rfl⟩

/-! ## Reading -/

private theorem complete_connections {response : Response} {finish : ℤ}
    (h : w.complete i response finish = .ok w') :
    w'.next = w.next ∧ ∀ j, (w'.connections j).output = (w.connections j).output
      ∧ (w'.connections j).input = (w.connections j).input
      ∧ (w'.connections j).active = (w.connections j).active := by
  obtain ⟨⟨statistics, tracker⟩, -, h⟩ := Except.bind_eq_ok_iff.mp h
  cases h
  refine ⟨rfl, fun j ↦ ?_⟩
  by_cases hj : j = i
  · subst hj
    rw [settle_self]
    exact ⟨rfl, rfl, rfl⟩
  · rw [settle_of_ne hj]
    exact ⟨rfl, rfl, rfl⟩

/-- What the decoder leaves in an input is an unfinished response. -/
theorem Bounded.decodeLoop (fuel : ℕ) (h : w.Bounded (some i))
    (hfuel : (w.connections i).input.readableBytes ≤ fuel) :
    (decodeLoop i fuel w).Ensures
      (fun r ↦ r.2.Bounded (some i) ∧ (r.1 = .ok () → r.2.Settled i)) (Excused job.load) := by
  have hpos : 0 < maxResponseFrameSize := by decide
  induction fuel generalizing w with
  | zero => exact ⟨h, fun _ ↦ (Nat.le_zero.mp hfuel).trans_lt hpos⟩
  | succ fuel ih =>
    rw [ClientWorker.decodeLoop]
    dsimp only
    split_ifs with hempty
    · refine ⟨h, fun _ ↦ ?_⟩
      rw [Settled, ← Buffer.length_readableView, (Buffer.empty_iff _).mp hempty]
      exact hpos
    obtain ⟨decoded, hdecode⟩ :=
      decodeResponse_follows.incremental.total (w.connections i).input ⟨0, .ok, []⟩ .none
    have hset : (w.setConnection i { w.connections i with input := decoded.input }).Bounded
        (some i) := h.setConnection (h.output i) fun hne ↦ absurd rfl hne
    rw [hdecode, Except.ok_bind_eq]
    rcases decodeResponse_follows.decode_cases hdecode with
      ⟨hnext, rfl⟩ | ⟨e, -, rfl⟩ | ⟨m, input', hnext, rfl⟩
    · refine ⟨hset, fun _ ↦ ?_⟩
      have hlt := Framing.length_lt_of_next_incomplete (by decide) hnext
      rw [Buffer.length_readableView] at hlt
      rw [Settled, setConnection_self]
      exact hlt
    · exact ⟨hset, by rintro ⟨⟩⟩
    · have hlength := Framing.length_rest_of_complete hnext
      rw [Buffer.length_readableView, Buffer.length_readableView] at hlength
      have hheader : responseFraming.headerSize = 20 := rfl
      have hround : input'.readableBytes ≤ fuel := by omega
      dsimp only
      cases hcomplete : (w.setConnection i { w.connections i with input := input' }).now.2.complete
          i m (w.setConnection i { w.connections i with input := input' }).now.1 with
      | error what => exact ⟨hset.congr (le_refl _) fun _ ↦ ⟨rfl, rfl, id⟩, by rintro ⟨⟩⟩
      | ok w' =>
        obtain ⟨hnext', hsame⟩ := complete_connections hcomplete
        refine ih (hset.congr hnext'.ge fun j ↦ ⟨(hsame j).1, (hsame j).2.1,
          fun hactive ↦ (hsame j).2.2 ▸ hactive⟩) ?_
        rw [(hsame i).2.1]
        show ((w.setConnection i _).connections i).input.readableBytes ≤ fuel
        rw [setConnection_self]
        exact hround

theorem Bounded.handleReadable (results : List RecvResult) (h : w.Bounded (some i))
    (hsettled : w.Settled i) :
    (handleReadable i results w).Ensures
      (fun r ↦ r.2.Bounded (some i) ∧ (∀ keep, r.1 = .ok keep → r.2.Settled i))
      (Excused job.load) := by
  induction results generalizing w with
  | nil => exact ⟨h, fun _ _ ↦ hsettled⟩
  | cons result results ih =>
    cases result with
    | received bytes pos le =>
      rw [ClientWorker.handleReadable]
      have happend := (w.connections i).input.append_ensures bytes
      cases hinput : (w.connections i).input.append bytes with
      | error fault =>
        -- an unfinished response and a chunk are not that long
        rw [hinput] at happend
        have hlong := happend.1
        have hshort : (w.connections i).input.readableBytes < maxResponseFrameSize := hsettled
        have hsmall : maxResponseFrameSize + readChunkSize ≤ 2 ^ 62 := by decide
        exact fun _ ↦ by omega
      | ok input =>
        rw [Except.ok_bind_eq]
        have hset : (w.setConnection i { w.connections i with input := input }).Bounded (some i) :=
          h.setConnection (h.output i) fun hne ↦ absurd rfl hne
        refine (hset.decodeLoop _ (le_refl _)).bind ?_
        rintro ⟨result, w'⟩ ⟨h', hsettled'⟩
        cases result with
        | error what => exact ⟨h', by rintro _ ⟨⟩⟩
        | ok _ => exact ih h' (hsettled' rfl)
    | closed => exact ⟨h, fun _ _ ↦ hsettled⟩
    | interrupted => exact ih h hsettled
    | wouldBlock => exact ⟨h, fun _ _ ↦ hsettled⟩
    | failed => exact ⟨h, fun _ _ ↦ hsettled⟩

/-! ## The loops

An event that keeps its connection leaves it settled, and one that does not gives it up. -/

theorem Bounded.tryEvent (h : w.Bounded none) (hactive : (w.connections i).active = true)
    (event : ReadyEvent) :
    (w.tryEvent i event).Ensures
      (fun r ↦ r.2.Bounded (some i) ∧ (∀ keep, r.1 = .ok keep → r.2.Settled i))
      (Excused job.load) := by
  have hsettled : w.Settled i := h.input i (by rintro ⟨⟩) hactive
  rw [ClientWorker.tryEvent]
  refine Except.Ensures.bind (Q := fun r ↦ r.2.Bounded (some i) ∧ r.2.Settled i) ?_ ?_
  · split_ifs
    · refine ((h.exempt i).handleWritable event.sends).mono fun r hr ↦ ⟨hr.1, ?_⟩
      rw [Settled, hr.2]
      exact hsettled
    · exact ⟨h.exempt i, hsettled⟩
  rintro ⟨keep, w₁⟩ ⟨h₁, hsettled₁⟩
  refine Except.Ensures.bind
    (Q := fun r ↦ r.2.Bounded (some i) ∧ (∀ keep, r.1 = .ok keep → r.2.Settled i)) ?_ ?_
  · split_ifs
    · exact h₁.handleReadable event.receives hsettled₁
    · exact ⟨h₁, fun _ _ ↦ hsettled₁⟩
  rintro ⟨result, w₂⟩ ⟨h₂, hsettled₂⟩
  cases result with
  | error what => exact ⟨h₂, by rintro _ ⟨⟩⟩
  | ok keep =>
    have hread : w₂.Settled i := hsettled₂ keep rfl
    dsimp only
    split_ifs
    · exact ⟨h₂, fun _ _ ↦ hread⟩
    · refine (h₂.fillLoop _).bind ?_
      rintro ⟨result, w₃⟩ ⟨h₃, hinput⟩
      have hfilled : w₃.Settled i := by
        rw [Settled, hinput]
        exact hread
      cases result with
      | error what => exact ⟨h₃, by rintro _ ⟨⟩⟩
      | ok _ => exact ⟨h₃, fun _ _ ↦ hfilled⟩

theorem Bounded.failConnection (h : w.Bounded (some i)) (error : String) :
    (w.failConnection i error).Bounded none := by
  have hfailed : (w.failAll i).2.Bounded none := by
    have hset := h.setConnection (i := i)
      (c := { w.connections i with tracker := {}, active := false }) (h.output i) (by rintro - ⟨⟩)
    refine ⟨hset.output, fun j _ hj ↦ hset.input j ?_ hj⟩
    rintro ⟨⟩
    rw [failAll, settle_self] at hj
    cases hj
  rw [ClientWorker.failConnection]
  split_ifs with hactive
  · refine ⟨h.output, fun j _ hj ↦ h.input j ?_ hj⟩
    rintro ⟨⟩
    simp [hj] at hactive
  · dsimp only
    split_ifs
    · exact hfailed.congr (le_refl _) fun _ ↦ ⟨rfl, rfl, id⟩
    · exact hfailed

theorem Bounded.handleEvent (h : w.Bounded none) (hactive : (w.connections i).active = true)
    (event : ReadyEvent) :
    (w.handleEvent i event).Ensures (Bounded none) (Excused job.load) := by
  refine (h.tryEvent hactive event).bind ?_
  rintro ⟨result, w'⟩ ⟨h', hsettled⟩
  rcases result with what | _ | _
  · exact h'.failConnection what
  · exact h'.failConnection _
  · exact h'.settled (hsettled _ rfl)

theorem Bounded.eventLoop (events : List ReadyEvent) (h : w.Bounded none) :
    (eventLoop events w).Ensures (Bounded none) (Excused job.load) := by
  induction events generalizing w with
  | nil => exact h
  | cons event events ih =>
    rw [ClientWorker.eventLoop]
    cases w.connectionIndexes.lookup event.fd with
    | none => exact ih h
    | some i =>
      dsimp only
      split_ifs with hactive
      · exact ih h
      · exact (h.handleEvent (by simpa using hactive) event).bind fun w' hw' ↦ ih hw'

theorem Bounded.startLoop (modified : Fin n → CallResult) (is : List (Fin n))
    (h : w.Bounded none) :
    (startLoop modified is w).Ensures (fun r ↦ r.2.Bounded none) (Excused job.load) := by
  induction is generalizing w with
  | nil => exact h
  | cons i is ih =>
    refine (h.fillLoop _).bind ?_
    rintro ⟨result, w'⟩ ⟨h', -⟩
    cases result with
    | error what => exact h'
    | ok _ =>
      dsimp only
      cases updateInterest (modified i) with
      | error what => exact h'
      | ok _ => exact ih h'

private theorem leave_excused (w : ClientWorker job n) :
    w.leave.Ensures (fun _ ↦ True) (Excused job.load) := by
  refine (sub_excused job.load _ _).bind fun length _ ↦ ?_
  split_ifs <;> exact trivial

theorem Bounded.waitLoop (waits : List WaitResult) (h : w.Bounded none) :
    (waitLoop waits w).Ensures (fun _ ↦ True) (Excused job.load) := by
  induction waits generalizing w with
  | nil =>
    refine w.leave_excused.bind fun r _ ↦ ?_
    cases r <;> exact trivial
  | cons wait waits ih =>
    refine w.leave_excused.bind fun r _ ↦ ?_
    cases r with
    | some w' => exact trivial
    | none =>
      cases wait with
      | ready events pos le => exact (h.eventLoop events).bind fun w' hw' ↦ ih hw'
      | timedOut => exact trivial
      | interrupted => exact ih h
      | failed description => exact trivial

theorem Bounded.run (h : w.Bounded none) (answers : Answers n) :
    (w.run answers).Ensures (fun _ ↦ True) (Excused job.load) := by
  have htry : (w.tryRun answers).Ensures (fun _ ↦ True) (Excused job.load) := by
    refine (h.startLoop answers.modified _).bind ?_
    rintro ⟨result, w'⟩ hw'
    cases result with
    | error what => exact trivial
    | ok _ => exact hw'.waitLoop answers.waits
  refine htry.bind ?_
  rintro ⟨result, w'⟩ -
  cases result <;> exact trivial

theorem bounded_new {answers : Answers n} (hnew : new job answers = .ok w) : w.Bounded none := by
  rw [new] at hnew
  obtain ⟨-, -, hnew⟩ := Except.bind_eq_ok_iff.mp hnew
  obtain ⟨fds, -, hnew⟩ := Except.bind_eq_ok_iff.mp hnew
  cases hnew
  exact {
    output := fun _ ↦ Nat.zero_le _
    input := fun _ _ _ ↦ (by decide : 0 < maxResponseFrameSize) }

end ClientWorker

/-! ## The threads -/

theorem runThread_excused (options : Options) (load : Workload) (i : ℕ)
    (answers : Answers (options.connectionCount i)) :
    (runThread options load i answers).Ensures (fun _ ↦ True) (Excused load) := by
  have hslice : (options.slice load.plan.length i).Ensures (fun _ ↦ True) (Excused load) :=
    (mul_excused load _ _).bind fun _ _ ↦ (mul_excused load _ _).bind fun _ _ ↦ trivial
  refine hslice.bind ?_
  rintro ⟨beginIndex, endIndex⟩ -
  dsimp only
  cases hnew : ClientWorker.new ⟨load, options.pipeline, beginIndex, endIndex⟩ answers with
  | error what => exact (sub_excused load _ _).bind fun _ _ ↦ trivial
  | ok worker =>
    exact ((ClientWorker.bounded_new hnew).run answers).bind fun _ _ ↦ trivial

theorem executePlan_excused (options : Options) (load : Workload)
    (answers : (i : ℕ) → Answers (options.connectionCount i)) :
    (executePlan options load answers).Ensures (fun _ ↦ True) (Excused load) := by
  have hthreads (is : List ℕ) :
      (runThreads options load answers is).Ensures (fun _ ↦ True) (Excused load) := by
    induction is with
    | nil => exact trivial
    | cons i is ih =>
      refine (runThread_excused options load i (answers i)).bind fun result _ ↦ ?_
      exact ih.bind fun _ _ ↦ trivial
  exact (hthreads _).bind fun _ _ ↦ trivial

end Benchmark

end HighCache
