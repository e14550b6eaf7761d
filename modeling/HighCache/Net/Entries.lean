import HighCache.Net.Throwing

/-!
# What a worker does with its connections

The steps of an event loop, told apart by what becomes of the connection they are for (`Takes`): a
step installs one, keeps one whose handlers have run, lets one go because it is closed, because
epoll does not watch it any more or because a handler threw, or clears them all. Whatever the order
of these steps, no two connections have one descriptor, each has an id of its own, and what epoll
watches for a connection is what it wants (`Tidy`).
-/

namespace HighCache

open KeyedList Protocol Transition

/-! ## What a step can do

First for the handlers of one event, then for the loop. Whether a connection is kept is decided by
the handlers, which say so only of one that is not to be closed. -/

namespace Connection

variable {n : ℕ} {hash : Bytes → UInt64} {c c' : Connection n}

private theorem handleWritable_kept (results : List SendResult) :
    ∀ {c c' : Connection n} {kept : Bool},
    c.handleWritable results = .ok (kept, c') → kept = !c'.shouldClose := by
  -- the loop is left by its condition
  have hdone : ∀ {results : List SendResult} {c c' : Connection n} {kept : Bool},
      (c.output.empty || c.shouldClose) = true → c.handleWritable results = .ok (kept, c') →
        kept = !c'.shouldClose := by
    intro results c c' kept hdone h
    have hfinish :
        c.handleWritable results = .ok (!c.finishWriting.shouldClose, c.finishWriting) := by
      cases results <;> exact if_pos hdone
    rw [hfinish] at h
    cases h
    rfl
  have hopen : ∀ {c : Connection n}, ¬ (c.output.empty || c.shouldClose) = true →
      c.shouldClose = false := by
    intro c hnot
    rw [Bool.or_eq_true, not_or] at hnot
    exact Bool.not_eq_true _ ▸ hnot.2
  induction results with
  | nil =>
    intro c c' kept h
    by_cases hempty : (c.output.empty || c.shouldClose) = true
    · exact hdone hempty h
    · rw [show c.handleWritable [] = _ from if_neg hempty] at h
      cases h
      rw [hopen hempty]
      rfl
  | cons result results ih =>
    intro c c' kept h
    by_cases hempty : (c.output.empty || c.shouldClose) = true
    · exact hdone hempty h
    · rw [show c.handleWritable (result :: results) = _ from if_neg hempty] at h
      cases result with
      | accepted count pos =>
        obtain ⟨output, houtput, h⟩ := Except.bind_eq_ok_iff.mp h
        exact ih h
      | interrupted => exact ih h
      | wouldBlock =>
        cases h
        rw [hopen hempty]
        rfl
      | failed =>
        cases h
        rw [shouldClose_close]
        rfl

private theorem step_kept {e : Event} {kept : Bool} (h : c.step hash e = .ok (kept, c')) :
    kept = !c'.shouldClose := by
  cases e with
  | readable results =>
    obtain ⟨c₁, -, h⟩ := Except.bind_eq_ok_iff.mp h
    cases h
    rfl
  | writable results => exact handleWritable_kept results h
  | peerClosed =>
    cases h
    rfl

theorem tryReadable_cases {throw : Option Throw} {reads : List RecvResult} {kept : Option Bool}
    (h : c.tryReadable hash throw reads = .ok (kept, c')) :
    (∃ place, kept = none ∧ c.readThrow hash place reads = .ok (true, c'))
      ∨ ∃ keep, kept = some keep ∧ c.handleReadable hash reads = .ok (keep, c') := by
  have hreturns : (c.handleReadable hash reads >>= fun r ↦ .ok (some r.1, r.2)) = .ok (kept, c') →
      ∃ keep, kept = some keep ∧ c.handleReadable hash reads = .ok (keep, c') := by
    intro h
    obtain ⟨⟨keep, c₁⟩, hread, h⟩ := Except.bind_eq_ok_iff.mp h
    cases h
    exact ⟨keep, rfl, hread⟩
  cases throw with
  | none => exact .inr (hreturns h)
  | some place =>
    obtain ⟨⟨thrown, c₁⟩, hthrow, h⟩ := Except.bind_eq_ok_iff.mp h
    cases thrown with
    | true =>
      cases h
      exact .inl ⟨place, rfl, hthrow⟩
    | false => exact .inr (hreturns h)

private theorem run_optional (hash : Bytes → UInt64) (event : Event) {p : Prop} [Decidable p]
    {keep kept : Bool} (h : (if p then c.step hash event else .ok (keep, c)) = .ok (kept, c')) :
    ∃ events ks, run (step hash) c events = .ok (ks, c')
      ∧ (kept = false → c'.shouldClose = true ∨ c' = c ∧ keep = false) := by
  split at h
  · refine ⟨[event], [kept], ?_, fun hkept ↦ Or.inl ?_⟩
    · rw [run_cons h]
      rfl
    · have hclosed := step_kept h
      rw [hkept] at hclosed
      simpa using hclosed.symm
  · cases h
    exact ⟨[], [], rfl, fun hkept ↦ Or.inr ⟨rfl, hkept⟩⟩

/-- What becomes of the handlers of an event: they are called and say whether the connection is to
be kept, or one throws. -/
theorem dispatch_cases {events : UInt32} {reads : List RecvResult} {writes : List SendResult}
    {throw : Option Throw} {kept : Option Bool}
    (h : c.dispatch hash events reads writes throw = .ok (kept, c')) :
    (∃ place, kept = none ∧ c.readThrow hash place reads = .ok (true, c'))
      ∨ ∃ keep calls ks, kept = some keep ∧ run (step hash) c calls = .ok (ks, c')
        ∧ (keep = false → c'.shouldClose = true ∨ (events &&& epollErr == 0) = false) := by
  obtain ⟨⟨kept₁, c₁⟩, hread, h⟩ := Except.bind_eq_ok_iff.mp h
  -- reading is the first of the three handlers, and the one that can throw
  have hreadable : (∃ place, kept₁ = none ∧ c.readThrow hash place reads = .ok (true, c₁))
      ∨ ∃ keep₁ calls ks, kept₁ = some keep₁ ∧ run (step hash) c calls = .ok (ks, c₁)
        ∧ (keep₁ = false → c₁.shouldClose = true ∨ (events &&& epollErr == 0) = false) := by
    split at hread
    · rcases tryReadable_cases hread with hthrow | ⟨keep₁, rfl, hcall⟩
      · exact .inl hthrow
      · refine .inr ⟨keep₁, [.readable reads], [keep₁], rfl, run_singleton.mpr hcall, ?_⟩
        intro hkept
        have hclosed := step_kept (e := .readable reads) hcall
        rw [hkept] at hclosed
        exact .inl (by simpa using hclosed.symm)
    · cases hread
      exact .inr ⟨_, [], [], rfl, rfl, .inr⟩
  rcases hreadable with ⟨place, rfl, hthrow⟩ | ⟨keep₁, calls₁, ks₁, rfl, hrun₁, hkeep₁⟩
  · cases h
    exact .inl ⟨place, rfl, hthrow⟩
  obtain ⟨⟨keep₂, c₂⟩, hwrite, h⟩ := Except.bind_eq_ok_iff.mp h
  obtain ⟨calls₂, ks₂, hrun₂, hkeep₂⟩ := run_optional hash (.writable writes) hwrite
  have hlast : ∃ keep₃, kept = some keep₃
      ∧ (if keep₂ && events &&& (epollRdHup ||| epollHup) != 0 then c₂.step hash .peerClosed
        else .ok (keep₂, c₂)) = .ok (keep₃, c') := by
    dsimp only at h
    split at h
    · rename_i hgo
      cases h
      exact ⟨_, rfl, if_pos hgo⟩
    · rename_i hgo
      cases h
      exact ⟨_, rfl, if_neg hgo⟩
  obtain ⟨keep₃, rfl, hlast⟩ := hlast
  obtain ⟨calls₃, ks₃, hrun₃, hkeep₃⟩ := run_optional hash .peerClosed hlast
  refine .inr ⟨keep₃, calls₁ ++ (calls₂ ++ calls₃), ks₁ ++ (ks₂ ++ ks₃), rfl, ?_, fun hkeep ↦ ?_⟩
  · rw [run_append hrun₁, run_append hrun₂, hrun₃]
    rfl
  -- the last handler that was called has asked to drop it, or there was an error event
  · rcases hkeep₃ hkeep with hclosed | ⟨rfl, hkeep⟩
    · exact .inl hclosed
    · rcases hkeep₂ hkeep with hclosed | ⟨rfl, hkeep⟩
      · exact .inl hclosed
      · exact hkeep₁ hkeep

end Connection

namespace EventLoop

variable {n : ℕ} {hash : Bytes → UInt64} {x x' : EventLoop n}

/-- What a step can do. -/
inductive Takes (hash : Bytes → UInt64) (x : EventLoop n) : EventLoop n → Prop where
  | nothing : x.Takes hash x
  | install {fd : ℕ} {interest : Option UInt32} (hfree : find Entry.fd fd x.connections = none)
      (hinterest : interest = none
        ∨ interest = some (Connection.new x.engine x.outputLimit).desiredEvents) :
      x.Takes hash { x with
        connections := ⟨x.installed, fd, .new x.engine x.outputLimit, interest⟩ :: x.connections
        installed := x.installed + 1 }
  | remove {fd : ℕ} : x.Takes hash { x with
      installed := x.installed + 1
      departed := (⟨x.installed, fd, .new x.engine x.outputLimit, none⟩, .unwatched)
        :: x.departed }
  | keep {fd : ℕ} {entry : Entry n} {calls : List Connection.Event} {kept : List Bool}
      {c : Connection n} (hfind : find Entry.fd fd x.connections = some entry)
      (hrun : run (Connection.step hash) { entry.connection with engine := x.engine } calls
        = .ok (kept, c)) (hopen : c.shouldClose = false) :
      x.Takes hash { x with
        engine := c.engine
        connections := { entry with connection := c, interest := some c.desiredEvents }
          :: without Entry.fd fd x.connections }
  | depart {fd : ℕ} {entry : Entry n} {calls : List Connection.Event} {kept : List Bool}
      {c : Connection n} {departure : Departure}
      (hfind : find Entry.fd fd x.connections = some entry)
      (hrun : run (Connection.step hash) { entry.connection with engine := x.engine } calls
        = .ok (kept, c)) (hclosed : departure = .closed ↔ c.shouldClose = true) :
      x.Takes hash { x with
        engine := c.engine
        connections := without Entry.fd fd x.connections
        departed := ({ entry with connection := c }, departure) :: x.departed }
  | throw {fd : ℕ} {entry : Entry n} {place : Throw} {reads : List RecvResult} {c : Connection n}
      (hfind : find Entry.fd fd x.connections = some entry)
      (hthrow : { entry.connection with engine := x.engine }.readThrow hash place reads
        = .ok (true, c)) (hopen : c.shouldClose = false) :
      x.Takes hash { x with
        engine := c.engine
        connections := without Entry.fd fd x.connections
        departed := ({ entry with connection := c }, .exception) :: x.departed }
  | clear : x.Takes hash x.clear

theorem takes_install (fd : ℕ) (watching : Watching) : x.Takes hash (x.install fd watching) := by
  unfold install
  cases hfind : find Entry.fd fd x.connections with
  | some entry => exact .nothing
  | none =>
    cases watching with
    | watched => exact .install hfind (Or.inr rfl)
    | unwatched => exact .install hfind (Or.inl rfl)
    | removed => exact .remove

private theorem takes_event {fd : ℕ} {events : UInt32} {reads : List RecvResult}
    {writes : List SendResult} {throw : Option Throw} {modified : Bool}
    (h : x.handleConnectionEvent hash fd events reads writes throw modified = .ok x') :
    x.Takes hash x' := by
  unfold handleConnectionEvent at h
  cases hfind : find Entry.fd fd x.connections with
  | none =>
    rw [hfind] at h
    cases h
    exact .nothing
  | some entry =>
    rw [hfind] at h
    obtain ⟨⟨kept, c⟩, hdispatch, h⟩ := Except.bind_eq_ok_iff.mp h
    dsimp only at h
    rcases Connection.dispatch_cases hdispatch with
      ⟨place, rfl, hthrow⟩ | ⟨keep, calls, ks, rfl, hrun, hkeep⟩
    · have hopen := Connection.readThrow_open reads hthrow
      simp only [Option.getD_none, Option.isNone_none, hopen] at h
      cases h
      exact .throw hfind hthrow hopen
    simp only [Option.getD_some, Option.isNone_some] at h
    cases hclose : c.shouldClose with
    | true =>
      rw [hclose, Bool.or_true, if_pos rfl, if_pos rfl] at h
      cases h
      exact .depart hfind hrun (iff_of_true rfl hclose)
    | false =>
      rw [hclose, Bool.or_false, Bool.not_false, Bool.and_true] at h
      generalize (if keep = true then modified else keep) = kept at h
      cases kept with
      | false =>
        cases h
        refine .depart hfind hrun (iff_of_false ?_ (by rw [hclose]; rintro ⟨⟩))
        rw [if_neg Bool.false_ne_true, if_neg Bool.false_ne_true]
        split <;> rintro ⟨⟩
      | true =>
        cases h
        exact .keep hfind hrun hclose

theorem takes_step {step : LoopStep} {r : Unit × EventLoop n} (h : x.step hash step = .ok r) :
    x.Takes hash r.2 := by
  cases step with
  | install fd watching =>
    cases h
    exact takes_install fd watching
  | event fd events reads writes throw modified =>
    obtain ⟨x', hevent, h⟩ := Except.bind_eq_ok_iff.mp h
    cases h
    exact takes_event hevent
  | clear =>
    cases h
    exact .clear

/-! ## The entries

A connection is found by its descriptor, and the kernel gives a descriptor of a closed connection to
another. An id is given once. -/

/-- What holds of the entries. -/
structure Tidy (x : EventLoop n) : Prop where
  fds : (x.connections.map Entry.fd).Nodup
  ids : (x.entries.map Entry.id).Nodup
  lt : ∀ entry ∈ x.entries, entry.id < x.installed
  kept : ∀ entry ∈ x.connections, entry.connection.shouldClose = false
    ∧ (entry.interest = none ∨ entry.interest = some entry.connection.desiredEvents)
  departed : ∀ entry departure, (entry, departure) ∈ x.departed →
    (departure = .closed ↔ entry.connection.shouldClose = true)

theorem tidy_new (engine : SharedEngine n) (outputLimit : ℕ) : (new engine outputLimit).Tidy where
  fds := List.nodup_nil
  ids := List.nodup_nil
  lt := fun _ hmem ↦ absurd hmem List.not_mem_nil
  kept := fun _ hmem ↦ absurd hmem List.not_mem_nil
  departed := fun _ _ hmem ↦ absurd hmem List.not_mem_nil

theorem Tidy.perm (h : x.Tidy) {fd : ℕ} {entry : Entry n}
    (hfind : find Entry.fd fd x.connections = some entry) :
    x.entries.Perm (entry :: (without Entry.fd fd x.connections ++ x.departed.map Prod.fst)) := by
  have hkey := key_of_find hfind
  subst hkey
  exact (perm_cons_without h.fds (mem_of_find hfind)).append_right _

private theorem mem_entries_of_without {fd : ℕ} {entry : Entry n}
    (h : entry ∈ without Entry.fd fd x.connections ++ x.departed.map Prod.fst) :
    entry ∈ x.entries := by
  refine List.mem_append.mpr ((List.mem_append.mp h).imp_left fun hmem ↦ ?_)
  exact (without_sublist fd _).subset hmem

theorem entries_clear (x : EventLoop n) : x.clear.entries = x.entries := by
  show [] ++ (x.connections.map (fun entry ↦ (entry, Departure.stopped)) ++ x.departed).map
    Prod.fst = _
  rw [List.nil_append, List.map_append, List.map_map]
  exact congrArg (· ++ _) (List.map_id _)

private theorem nodup_without (h : x.Tidy) (fd : ℕ) :
    ((without Entry.fd fd x.connections).map Entry.fd).Nodup :=
  h.fds.sublist ((without_sublist fd _).map _)

/-! ### One step after another -/

private theorem installed_fresh (h : x.Tidy) : x.installed ∉ x.entries.map Entry.id := by
  intro hmem
  obtain ⟨entry, hentry, hid⟩ := List.mem_map.mp hmem
  exact absurd (h.lt entry hentry) (by omega)

theorem Tidy.install (h : x.Tidy) {fd : ℕ} {interest : Option UInt32}
    (hfree : find Entry.fd fd x.connections = none) (hinterest : interest = none
      ∨ interest = some (Connection.new x.engine x.outputLimit).desiredEvents) :
    Tidy { x with
      connections := ⟨x.installed, fd, .new x.engine x.outputLimit, interest⟩ :: x.connections
      installed := x.installed + 1 } where
  fds := by
    refine List.nodup_cons.mpr ⟨fun hmem ↦ ?_, h.fds⟩
    obtain ⟨entry, hentry, hfd⟩ := List.mem_map.mp hmem
    exact find_eq_none.mp hfree entry hentry hfd
  ids := List.nodup_cons.mpr ⟨installed_fresh h, h.ids⟩
  lt := by
    rintro entry (_ | ⟨_, hmem⟩)
    · exact Nat.lt_succ_self _
    · exact Nat.lt_succ_of_lt (h.lt entry hmem)
  kept := by
    rintro entry (_ | ⟨_, hmem⟩)
    · exact ⟨rfl, hinterest⟩
    · exact h.kept entry hmem
  departed := h.departed

theorem Tidy.remove (h : x.Tidy) {fd : ℕ} :
    Tidy { x with
      installed := x.installed + 1
      departed := (⟨x.installed, fd, .new x.engine x.outputLimit, none⟩, .unwatched)
        :: x.departed } := by
  have hperm : ({ x with
      installed := x.installed + 1
      departed := (⟨x.installed, fd, .new x.engine x.outputLimit, none⟩, .unwatched)
        :: x.departed } : EventLoop n).entries.Perm
      (⟨x.installed, fd, .new x.engine x.outputLimit, none⟩ :: x.entries) := List.perm_middle
  exact {
    fds := h.fds
    ids := (hperm.map Entry.id).nodup_iff.mpr (List.nodup_cons.mpr ⟨installed_fresh h, h.ids⟩)
    lt := by
      intro entry hmem
      rcases List.mem_cons.mp (hperm.subset hmem) with rfl | hmem
      · exact Nat.lt_succ_self _
      · exact Nat.lt_succ_of_lt (h.lt entry hmem)
    kept := h.kept
    departed := by
      rintro entry departure (_ | ⟨_, hmem⟩)
      · exact iff_of_false (by rintro ⟨⟩) (by rintro ⟨⟩)
      · exact h.departed entry departure hmem }

theorem Tidy.keep (h : x.Tidy) {fd : ℕ} {entry : Entry n}
    (hfind : find Entry.fd fd x.connections = some entry) {c : Connection n}
    (hopen : c.shouldClose = false) :
    Tidy { x with
      engine := c.engine
      connections := { entry with connection := c, interest := some c.desiredEvents }
        :: without Entry.fd fd x.connections } where
  fds := by
    refine List.nodup_cons.mpr ⟨fun hmem ↦ ?_, nodup_without h fd⟩
    have hkey : entry.fd = fd := key_of_find hfind
    obtain ⟨other, hother, hfd⟩ := List.mem_map.mp hmem
    exact (mem_without.mp hother).2 (hfd.trans hkey)
  ids := ((h.perm hfind).map Entry.id).nodup_iff.mp h.ids
  lt := by
    rintro other (_ | ⟨_, hmem⟩)
    · exact h.lt entry ((h.perm hfind).symm.subset List.mem_cons_self)
    · exact h.lt other (mem_entries_of_without hmem)
  kept := by
    rintro other (_ | ⟨_, hmem⟩)
    · exact ⟨hopen, Or.inr rfl⟩
    · exact h.kept other ((without_sublist fd _).subset hmem)
  departed := h.departed

theorem Tidy.depart (h : x.Tidy) {fd : ℕ} {entry : Entry n}
    (hfind : find Entry.fd fd x.connections = some entry) {c : Connection n}
    {departure : Departure} (hclosed : departure = .closed ↔ c.shouldClose = true) :
    Tidy { x with
      engine := c.engine
      connections := without Entry.fd fd x.connections
      departed := ({ entry with connection := c }, departure) :: x.departed } := by
  have hperm : (without Entry.fd fd x.connections
      ++ (({ entry with connection := c }, departure) :: x.departed).map Prod.fst).Perm
      ({ entry with connection := c }
        :: (without Entry.fd fd x.connections ++ x.departed.map Prod.fst)) := List.perm_middle
  exact {
    fds := nodup_without h fd
    ids := (hperm.map Entry.id).nodup_iff.mpr (((h.perm hfind).map Entry.id).nodup_iff.mp h.ids)
    lt := by
      intro other hmem
      rcases List.mem_cons.mp (hperm.subset hmem) with rfl | hmem
      · exact h.lt entry ((h.perm hfind).symm.subset List.mem_cons_self)
      · exact h.lt other (mem_entries_of_without hmem)
    kept := fun other hmem ↦ h.kept other ((without_sublist fd _).subset hmem)
    departed := by
      rintro other departure' (_ | ⟨_, hmem⟩)
      · exact hclosed
      · exact h.departed other departure' hmem }

theorem Tidy.clear (h : x.Tidy) : x.clear.Tidy where
  fds := List.nodup_nil
  ids := by
    rw [entries_clear]
    exact h.ids
  lt := by
    rw [entries_clear]
    exact h.lt
  kept := fun _ hmem ↦ absurd hmem List.not_mem_nil
  departed := by
    intro entry departure hmem
    rcases List.mem_append.mp hmem with hmem | hmem
    · obtain ⟨entry', hentry, heq⟩ := List.mem_map.mp hmem
      cases heq
      exact iff_of_false (by rintro ⟨⟩) (by rw [(h.kept entry hentry).1]; rintro ⟨⟩)
    · exact h.departed entry departure hmem

/-- **Every step leaves the entries tidy.** -/
theorem Tidy.takes (h : x.Tidy) (htakes : x.Takes hash x') : x'.Tidy := by
  cases htakes with
  | nothing => exact h
  | install hfree hinterest => exact h.install hfree hinterest
  | remove => exact h.remove
  | keep hfind hrun hopen => exact h.keep hfind hopen
  | depart hfind hrun hclosed => exact h.depart hfind hclosed
  | throw hfind hthrow hopen =>
    exact h.depart hfind (iff_of_false (by rintro ⟨⟩) (by rw [hopen]; rintro ⟨⟩))
  | clear => exact h.clear

end EventLoop

end HighCache
