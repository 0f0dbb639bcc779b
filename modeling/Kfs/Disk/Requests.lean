/-
**Runs of requests after `ide_init`.**

The last drive that `ide_init` selects on a channel is the slave, and `ide_read_sectors` and `ide_write_sectors`
wait for the drive that is selected before they select theirs.

* `lone_master_unreachable`: without a slave on the channel nobody answers that wait, so every request to the
  channel fails and no byte of its drive moves, whatever the drives do, in every run of requests.
* `ide_runs_refine`: with drives that find time for the driver, every run of requests to the two channels is a
  run on four stores of sectors, where the drives of a channel without a slave count as absent.
-/

import Kfs.Disk.Channels

namespace Kfs.Disk.Ata

/-- A request to a drive, and what the rest of the kernel stores before it. -/
structure IdeRequest where
  writes : Bool
  channel : IdeChannel
  drive : IdeDrive
  lba : UInt32
  count : UInt8
  buffer : Nat
  meanwhile : Memory → Memory

namespace IdeRequest

/-- The request: memory, and what the call returns. -/
def prog (r : IdeRequest) (t : IdeController) (m : Memory) : PortProg Empty (Memory × Int) :=
  if r.writes then do
    let returned ← ideWriteSectors (t r.channel r.drive) (r.meanwhile m) r.lba r.count r.buffer
    return (r.meanwhile m, returned)
  else ideReadSectors (t r.channel r.drive) (r.meanwhile m) r.lba r.count r.buffer

/-- Requests one after the other. -/
def progs (t : IdeController) : List IdeRequest → Memory → PortProg Empty (Memory × List Int)
  | [], m => return (m, [])
  | r :: rs, m => do
      let first ← r.prog t m
      let later ← progs t rs first.1
      return (later.1, first.2 :: later.2)

/-! ### The stores of sectors -/

/-- Four stores of sectors. -/
abbrev Disks : Type := IdeChannel → IdeDrive → Device

/-- **What a request is for**, as the store of sectors says it. -/
def step (r : IdeRequest) (disks : Disks) (m : Memory) : (Disks × Memory) × Int :=
  if r.writes then
    let wrote := Disk.ideWriteSectors (disks r.channel r.drive) (r.meanwhile m) r.lba.toNat r.count.toNat r.buffer
    ((Function.update disks r.channel (Function.update (disks r.channel) r.drive wrote.1), r.meanwhile m), wrote.2)
  else
    let read := Disk.ideReadSectors (disks r.channel r.drive).toDrive (r.meanwhile m) r.lba.toNat r.count.toNat
      r.buffer
    ((disks, read.1), read.2)

/-- Requests one after the other. -/
def steps : List IdeRequest → Disks → Memory → (Disks × Memory) × List Int
  | [], disks, m => ((disks, m), [])
  | r :: rs, disks, m =>
      let first := r.step disks m
      let later := steps rs first.1.1 first.1.2
      (later.1, first.2 :: later.2)

end IdeRequest

/-- A drive that finds time for the driver, and gives up on the bad sectors only. -/
structure AtaDrive.Steady (d : AtaDrive) (bad : Nat → Bool) : Prop where
  intime : ∀ n p, (d.replies n p).polls < ideTimeout
  reads : ∀ n sector left word, (d.replies n (.reading sector left word)).error = bad sector
  writes : ∀ n sector left word, (d.replies n (.writing sector left word)).error = bad sector

/-- Its store of sectors. -/
def steadyDevice (present : Bool) (bad : Nat → Bool) (bytes : Nat → UInt8) : Device where
  present := present
  ready _ := true
  drq lba k := !bad (lba + k)
  bytes := bytes
  takes lba k := !bad (lba + k)
  stored _ _ := true

/-- **What the two channels are for**: a drive can be used if `ide_init` found it and its channel has a
slave. -/
def Cables.disks (s : Cables) (t : IdeController) (bad : IdeChannel → IdeDrive → Nat → Bool) : IdeRequest.Disks :=
  fun channel drive => steadyDevice ((t channel drive).present && ((s channel).drives .slave).isSome)
    (bad channel drive) (((s channel).contents drive).getD fun _ => 0)

/-- The records are those of the drives. -/
structure IdeController.Wired (t : IdeController) : Prop where
  ioBase : ∀ channel slot, (t channel slot).ioBase = Ata.ioBase channel
  drive : ∀ channel slot, (t channel slot).drive = driveSelect slot

theorem wired_table (s : Cables) : s.table.Wired := ⟨fun _ _ => table_place.1, fun _ _ => table_place.2⟩

section Channel

variable {t : IdeController} {s : Cables} {m : Memory} {r : IdeRequest} {channel : IdeChannel}

theorem IdeRequest.makes_prog (wired : t.Wired) (r : IdeRequest) (m : Memory) :
    (r.prog t m).Makes (On r.channel) := by
  unfold IdeRequest.prog
  split
  · exact .bind (makes_ideWriteSectors (wired.ioBase _ _) _ _ _ _) fun _ => .done _
  · exact makes_ideReadSectors (wired.ioBase _ _) _ _ _ _

/-- A request to a channel on which nobody answers. -/
theorem IdeRequest.run_nobody (wired : t.Wired) (nobody : (s r.channel).selected = none) :
    (r.prog t m).run ide s = ((r.meanwhile m, -1), s) := by
  have failed : ¬ (-1 : Int) = 0 := by decide
  have waits : (ideWaitReady (t r.channel r.drive).ioBase).run (cable (ioBase r.channel)) (s r.channel) =
      (-1, s r.channel) := by
    rw [wired.ioBase]
    exact run_pollReady_none nobody _
  have ran : (r.prog t m).run (cable (ioBase r.channel)) (s r.channel) = ((r.meanwhile m, -1), s r.channel) := by
    unfold IdeRequest.prog
    split
    · unfold ideWriteSectors
      split
      · rfl
      · split
        · rfl
        · rw [Prog.run_bind, Prog.run_bind, waits, if_pos failed]
          rfl
    · unfold ideReadSectors
      split
      · rfl
      · split
        · rfl
        · rw [Prog.run_bind, waits, if_pos failed]
          rfl
  rw [run_on (r.makes_prog wired m), ran, Function.update_eq_self]

/-- **On a channel on which nobody answers every request fails**, and nothing changes there. -/
theorem IdeRequest.progs_nobody (wired : t.Wired) (requests : List IdeRequest) :
    ∀ (m : Memory) (s : Cables), (s channel).selected = none →
      List.Forall₂ (fun r returned => r.channel = channel → returned = -1) requests
          ((IdeRequest.progs t requests m).run ide s).1.2 ∧
        ((IdeRequest.progs t requests m).run ide s).2 channel = s channel := by
  induction requests with
  | nil => exact fun m s _ => ⟨.nil, rfl⟩
  | cons r rs ih =>
      intro m s nobody
      rw [IdeRequest.progs, Prog.run_bind, Prog.run_bind]
      by_cases mine : r.channel = channel
      · rw [IdeRequest.run_nobody wired (mine.symm ▸ nobody)]
        obtain ⟨failed, same⟩ := ih (r.meanwhile m) s nobody
        exact ⟨.cons (fun _ => rfl) failed, same⟩
      · have apart : ((r.prog t m).run ide s).2 channel = s channel := by
          rw [run_on (r.makes_prog wired m)]
          exact Function.update_of_ne (fun same => mine same.symm) _ _
        obtain ⟨failed, same⟩ := ih ((r.prog t m).run ide s).1.1 ((r.prog t m).run ide s).2 (apart.symm ▸ nobody)
        exact ⟨.cons (fun here => absurd here mine) failed, same.trans apart⟩

end Channel

/-! ### Runs -/

/-- What the drives keep to: they are at rest, find time, and give up on the bad sectors only; records of drives
that can be used are those of drives that are there; and somebody answers on each channel that has a slave. -/
structure Cables.Sound (s : Cables) (t : IdeController) (bad : IdeChannel → IdeDrive → Nat → Bool) : Prop where
  wired : t.Wired
  calm : ∀ channel slot, ∀ d ∈ (s channel).drives slot, d.busy = 0
  steady : ∀ channel slot, ∀ d ∈ (s channel).drives slot, d.Steady (bad channel slot)
  attached : ∀ channel slot, (t channel slot).present = true → ((s channel).drives slot).isSome
  answered : ∀ channel, (s channel).selected.isSome = ((s channel).drives .slave).isSome

section Runs

variable {t : IdeController} {s : Cables} {bad : IdeChannel → IdeDrive → Nat → Bool} {d d' : AtaDrive}
  {c c' : Cable} {channel : IdeChannel} {m : Memory} {r : IdeRequest}

theorem AtaDrive.Steady.later {bad : Nat → Bool} (steady : d.Steady bad) (later : Later d d') : d'.Steady bad := by
  obtain ⟨k, same⟩ := later.replies
  refine ⟨fun n p => ?_, fun n sector left word => ?_, fun n sector left word => ?_⟩
  · rw [same]
    exact steady.intime _ _
  · rw [same]
    exact steady.reads _ _ _ _
  · rw [same]
    exact steady.writes _ _ _ _

/-- A steady drive serves the sectors that are not bad. -/
theorem AtaDrive.Steady.asDrive {bad : Nat → Bool} (steady : d.Steady bad) (present : Bool) (count : Nat) :
    d.asDrive present true count = (steadyDevice present bad d.bytes).toDrive := by
  have serves : ∀ lba k, (d.replies k (.reading (lba + k) (count - k) 0)).serves = !bad (lba + k) := by
    intro lba k
    rw [Reply.serves, decide_eq_true (steady.intime _ _), steady.reads, Bool.true_and]
  simp only [AtaDrive.asDrive, steadyDevice, serves]

theorem AtaDrive.Steady.asDevice {bad : Nat → Bool} (steady : d.Steady bad) (present : Bool) (count : Nat) :
    d.asDevice present true count = steadyDevice present bad d.bytes := by
  have serves : ∀ lba k, (d.replies k (.reading (lba + k) (count - k) 0)).serves = !bad (lba + k) := by
    intro lba k
    rw [Reply.serves, decide_eq_true (steady.intime _ _), steady.reads, Bool.true_and]
  have takes : ∀ lba k, (d.replies k (.writing (lba + k) (count - k) 0)).serves = !bad (lba + k) := by
    intro lba k
    rw [Reply.serves, decide_eq_true (steady.intime _ _), steady.writes, Bool.true_and]
  have stored : ∀ lba k, decide ((d.replies (k + 1) (writePhase (lba + k + 1) (count - k - 1))).polls < ideTimeout) =
      true := fun lba k => decide_eq_true (steady.intime _ _)
  simp only [AtaDrive.asDevice, steadyDevice, serves, takes, stored]

theorem Cable.Later.isSome (later : c.Later c') (slot : IdeDrive) :
    (c'.drives slot).isSome = (c.drives slot).isSome := by
  have one := later slot
  cases here : c.drives slot with
  | none =>
      cases there : c'.drives slot with
      | none => rfl
      | some d' => rw [here, there] at one; cases one
  | some d =>
      cases there : c'.drives slot with
      | none => rw [here, there] at one; cases one
      | some d' => rfl

theorem Cable.Later.mem (later : c.Later c') {slot : IdeDrive} (there : c'.drives slot = some d') :
    ∃ d, c.drives slot = some d ∧ Ata.Later d d' := by
  have one := later slot
  rw [there] at one
  cases here : c.drives slot with
  | none => rw [here] at one; cases one
  | some d =>
      rw [here] at one
      cases one with
      | some goes => exact ⟨d, rfl, goes⟩

/-- **One cable goes on.** -/
theorem Cables.Sound.update (sound : s.Sound t bad) (later : (s channel).Later c')
    (register : c'.selected.isSome = (c'.drives .slave).isSome) :
    Cables.Sound (Function.update s channel c') t bad := by
  have drive : ∀ slot d', c'.drives slot = some d' → d'.busy = 0 ∧ d'.Steady (bad channel slot) := by
    intro slot d' there
    obtain ⟨d, here, goes⟩ := later.mem there
    have steady := sound.steady channel slot d here
    exact ⟨goes.calm steady.intime (sound.calm channel slot d here), steady.later goes⟩
  refine ⟨sound.wired, fun ch slot d' there => ?_, fun ch slot d' there => ?_, fun ch slot present => ?_, fun ch => ?_⟩
  · by_cases mine : ch = channel
    · subst mine
      rw [Function.update_self] at there
      exact (drive slot d' there).1
    · rw [Function.update_of_ne mine] at there
      exact sound.calm ch slot d' there
  · by_cases mine : ch = channel
    · subst mine
      rw [Function.update_self] at there
      exact (drive slot d' there).2
    · rw [Function.update_of_ne mine] at there
      exact sound.steady ch slot d' there
  · by_cases mine : ch = channel
    · subst mine
      rw [Function.update_self, later.isSome]
      exact sound.attached ch slot present
    · rw [Function.update_of_ne mine]
      exact sound.attached ch slot present
  · by_cases mine : ch = channel
    · subst mine
      rw [Function.update_self]
      exact register
    · rw [Function.update_of_ne mine]
      exact sound.answered ch

/-- A request to a store that is not there. -/
theorem IdeRequest.step_absent {disks : IdeRequest.Disks} (absent : (disks r.channel r.drive).present = false) :
    r.step disks m = ((disks, r.meanwhile m), -1) := by
  unfold IdeRequest.step
  split
  · rw [Disk.ideWriteSectors, if_pos absent]
    dsimp only
    rw [Function.update_eq_self, Function.update_eq_self]
  · rw [Disk.ideReadSectors, if_pos absent]

theorem IdeRequest.run_absent (absent : (t r.channel r.drive).present = false) :
    (r.prog t m).run ide s = ((r.meanwhile m, -1), s) := by
  unfold IdeRequest.prog
  split
  · rw [ideWriteSectors, if_pos absent]
    rfl
  · rw [ideReadSectors, if_pos absent]
    rfl

/-- Stores of sectors are those of the drives. -/
theorem disks_update (later : (s channel).Later c') (bytes : IdeDrive → Nat → UInt8)
    (contents : ∀ slot, (c'.contents slot).getD (fun _ => 0) = bytes slot) :
    Cables.disks (Function.update s channel c') t bad = Function.update (s.disks t bad) channel fun drive =>
      steadyDevice ((t channel drive).present && ((s channel).drives .slave).isSome) (bad channel drive)
        (bytes drive) := by
  funext ch drive
  by_cases mine : ch = channel
  · subst mine
    rw [Function.update_self, Cables.disks, Function.update_self, later.isSome, contents]
  · rw [Function.update_of_ne mine, Cables.disks, Function.update_of_ne mine]
    rfl

theorem writeSectors_device (dev : Device) (m : Memory) (lba count buffer : Nat) :
    (Disk.ideWriteSectors dev m lba count buffer).1 =
      { dev with bytes := (Disk.ideWriteSectors dev m lba count buffer).1.bytes } := by
  rw [ideWriteSectors_eq]
  rfl

/-- **One request** is one step of the stores. -/
theorem IdeRequest.run_prog (sound : s.Sound t bad) (r : IdeRequest) (m : Memory) :
    r.step (s.disks t bad) m = ((((r.prog t m).run ide s).2.disks t bad, ((r.prog t m).run ide s).1.1),
        ((r.prog t m).run ide s).1.2) ∧
      Cables.Sound ((r.prog t m).run ide s).2 t bad := by
  by_cases slave : ((s r.channel).drives .slave).isSome = true
  · by_cases present : (t r.channel r.drive).present = true
    · obtain ⟨d, there⟩ := Option.isSome_iff_exists.mp (sound.attached _ _ present)
      have calm := sound.calm _ _ d there
      have steady := sound.steady _ _ d there
      have responds : (s r.channel).responds = true := by
        obtain ⟨e, here⟩ := Option.isSome_iff_exists.mp ((sound.answered r.channel).trans slave)
        rw [Cable.responds, here]
        exact decide_eq_true ((sound.calm _ _ e here).symm ▸ by decide)
      have store : (s.disks t bad) r.channel r.drive = steadyDevice true (bad r.channel r.drive) d.bytes := by
        rw [Cables.disks, present, slave, Cable.contents, there]
        rfl
      -- Somebody answers also after the request: the drive that did before, or the one asked.
      have register : ∀ c', Requested (s r.channel) c' r.drive → c'.selected.isSome = (c'.drives .slave).isSome := by
        intro c' requested
        rw [requested.later.isSome, slave, Cable.selected, requested.later.isSome]
        rcases requested.register with same | mine
        · rw [same]
          exact (sound.answered r.channel).trans slave
        · rw [mine, there]
          rfl
      rw [run_on (r.makes_prog sound.wired m)]
      unfold IdeRequest.prog IdeRequest.step
      by_cases writes : r.writes = true
      · obtain ⟨c', dev', wrote, ran, contents, requested⟩ := run_ideWriteSectors (sound.wired.drive _ _) there
          calm (r.meanwhile m) r.lba r.count r.buffer
        rw [sound.wired.ioBase] at wrote ran
        rw [present, responds, steady.asDevice] at wrote
        rw [if_pos writes, if_pos writes, store, Prog.run_bind, wrote, ran]
        refine ⟨?_, sound.update requested.later (register c' requested)⟩
        have shape := writeSectors_device (steadyDevice true (bad r.channel r.drive) d.bytes) (r.meanwhile m)
          r.lba.toNat r.count.toNat r.buffer
        rw [wrote] at shape
        have stores := @disks_update t s bad c' r.channel requested.later (fun slot =>
          if slot = r.drive then dev'.bytes else ((s r.channel).contents slot).getD fun _ => 0) fun slot => by
            rw [contents]
            split <;> rfl
        refine Prod.ext (Prod.ext ?_ rfl) rfl
        refine Eq.trans (congrArg (Function.update _ _) ?_) stores.symm
        funext slot
        by_cases mine : slot = r.drive
        · rw [mine, Function.update_self, if_pos rfl, present, slave]
          exact shape
        · rw [Function.update_of_ne mine, if_neg mine]
          rfl
      · obtain ⟨c', ran, contents, requested⟩ := run_ideReadSectors (sound.wired.drive _ _) there calm
          (r.meanwhile m) r.lba r.count r.buffer
        rw [sound.wired.ioBase] at ran
        rw [present, responds, steady.asDrive] at ran
        rw [if_neg writes, if_neg writes, store, ran]
        refine ⟨?_, sound.update requested.later (register c' requested)⟩
        have stores := @disks_update t s bad c' r.channel requested.later (fun slot =>
          ((s r.channel).contents slot).getD fun _ => 0) fun slot => by rw [contents]
        refine Prod.ext (Prod.ext ?_ rfl) rfl
        exact (Function.update_eq_self r.channel (s.disks t bad)).symm.trans stores.symm
    · rw [Bool.not_eq_true] at present
      rw [IdeRequest.run_absent present]
      refine ⟨IdeRequest.step_absent ?_, sound⟩
      rw [Cables.disks, present]
      rfl
  · have nobody : (s r.channel).selected = none := by
      rw [← Option.not_isSome_iff_eq_none, sound.answered]
      exact slave
    rw [IdeRequest.run_nobody sound.wired nobody]
    rw [Bool.not_eq_true] at slave
    refine ⟨IdeRequest.step_absent ?_, sound⟩
    rw [Cables.disks, slave, Bool.and_false]
    rfl

/-- **A run of requests** is a run on the stores. -/
theorem IdeRequest.run_progs (requests : List IdeRequest) : ∀ (m : Memory) (s : Cables), s.Sound t bad →
    IdeRequest.steps requests (s.disks t bad) m =
      ((((IdeRequest.progs t requests m).run ide s).2.disks t bad, ((IdeRequest.progs t requests m).run ide s).1.1),
        ((IdeRequest.progs t requests m).run ide s).1.2) := by
  induction requests with
  | nil => exact fun m s _ => rfl
  | cons r rs ih =>
      intro m s sound
      obtain ⟨first, next⟩ := r.run_prog sound m
      rw [IdeRequest.steps, IdeRequest.progs, Prog.run_bind, Prog.run_bind, first, ih _ _ next]
      rfl

end Runs

/-! ### From `ide_init` on -/

section Boot

variable {s : Cables} {bad : IdeChannel → IdeDrive → Nat → Bool}

/-- What `ide_init` leaves, when the drives find time. -/
theorem sound_init (rest : s.Rest) (steady : ∀ channel slot, ∀ d ∈ (s channel).drives slot,
    d.Steady (bad channel slot)) {s' : Cables} (facts : ∀ channel, (s' channel).drive = driveSelect .slave ∧
      (s channel).Later (s' channel) ∧ ∀ slot, (s' channel).contents slot = (s channel).contents slot) :
    s'.Sound s.table bad := by
  have drive : ∀ channel slot d', (s' channel).drives slot = some d' → d'.busy = 0 ∧ d'.Steady (bad channel slot) := by
    intro channel slot d' there
    obtain ⟨d, here, goes⟩ := (facts channel).2.1.mem there
    have before := steady channel slot d here
    exact ⟨goes.calm before.intime (rest channel slot d here).calm, before.later goes⟩
  refine ⟨wired_table s, fun channel slot d' there => (drive channel slot d' there).1,
    fun channel slot d' there => (drive channel slot d' there).2, fun channel slot present => ?_, fun channel => ?_⟩
  · rw [(facts channel).2.1.isSome]
    by_contra absent
    rw [Option.not_isSome_iff_eq_none] at absent
    rw [table_absent absent] at present
    cases present
  · rw [Cable.selected, (facts channel).1, selects_driveSelect]

end Boot

/-- **A master without a slave cannot be reached.** After `ide_init`, whatever the drives do and however long they
take, in every run of requests to the two channels every request to a channel without a slave returns -1, and the
drives of the channel stay as `ide_init` left them, with the sectors they had before. -/
theorem lone_master_unreachable {s : Cables} (rest : s.Rest) {channel : IdeChannel}
    (alone : (s channel).drives .slave = none) (requests : List IdeRequest) (m : Memory) :
    ∃ t booted results m' s', ideInit.run ide s = (t, booted) ∧
      (IdeRequest.progs t requests m).run ide booted = ((m', results), s') ∧
      List.Forall₂ (fun r returned => r.channel = channel → returned = -1) requests results ∧
      s' channel = booted channel ∧ ∀ slot, (s' channel).contents slot = (s channel).contents slot := by
  obtain ⟨booted, init, facts⟩ := run_ideInit rest
  have nobody : (booted channel).selected = none := by
    rw [Cable.selected, (facts channel).1, selects_driveSelect, ← Option.not_isSome_iff_eq_none,
      (facts channel).2.1.isSome, alone]
    decide
  obtain ⟨failed, same⟩ := IdeRequest.progs_nobody (wired_table s) requests m booted nobody
  exact ⟨s.table, booted, _, _, _, init, rfl, failed, same, fun slot => same.symm ▸ (facts channel).2.2 slot⟩

/-- A drive on its own: `ide_init` finds it, and no request reaches it. -/
theorem lone_master_unreachable_quick : ∃ t booted m' s', ideInit.run ide (fun _ => loneCable) = (t, booted) ∧
    (t .primary .master).present = true ∧
    (IdeRequest.progs t [⟨false, .primary, .master, 2, 2, 4096, id⟩] fun _ => 0).run ide booted =
      ((m', [-1]), s') := by
  have rest : Cables.Rest fun _ => loneCable := by
    intro channel slot d there
    cases slot with
    | master =>
        obtain rfl : quickDrive = d := Option.some.inj there
        exact ⟨rfl, .inl rfl⟩
    | slave => cases there
  obtain ⟨t, booted, results, m', s', init, ran, failed, -⟩ := lone_master_unreachable rest
    (show loneCable.drives .slave = none from rfl) [⟨false, .primary, .master, 2, 2, 4096, id⟩] fun _ => 0
  obtain ⟨booted', again, -⟩ := run_ideInit rest
  have table : t = Cables.table fun _ => loneCable := congrArg Prod.fst (init.symm.trans again)
  cases failed with
  | cons first later =>
      cases later
      rw [first rfl] at ran
      exact ⟨t, booted, m', s', init, by rw [table]; rfl, ran⟩

/-- **The two channels are four stores of sectors.** From any drives at rest that find time for the driver and give
up on their bad sectors only, after `ide_init` every run of requests, with whatever the rest of the kernel stores
between them, returns and stores what the stores of sectors say. A drive counts as present if `ide_init` found it
and its channel has a slave. -/
theorem ide_runs_refine {s : Cables} {bad : IdeChannel → IdeDrive → Nat → Bool} (rest : s.Rest)
    (steady : ∀ channel slot, ∀ d ∈ (s channel).drives slot, d.Steady (bad channel slot))
    (requests : List IdeRequest) (m : Memory) :
    ∃ t booted results m' s', ideInit.run ide s = (t, booted) ∧
      (IdeRequest.progs t requests m).run ide booted = ((m', results), s') ∧
      IdeRequest.steps requests (s.disks t bad) m = ((s'.disks t bad, m'), results) := by
  obtain ⟨booted, init, facts⟩ := run_ideInit rest
  have sound := sound_init rest steady facts
  have start : booted.disks s.table bad = s.disks s.table bad := by
    funext channel drive
    rw [Cables.disks, Cables.disks, (facts channel).2.1.isSome, (facts channel).2.2]
  refine ⟨s.table, booted, _, _, _, init, rfl, ?_⟩
  rw [← start]
  exact IdeRequest.run_progs requests m booted sound

/-- A cable with two drives. -/
def pairCable : Cable := { loneCable with drives := fun _ => some quickDrive }

/-- Two drives on a channel: the master is written and read. -/
theorem ide_runs_refine_pair : ∃ t booted m' s', ideInit.run ide (fun _ => pairCable) = (t, booted) ∧
    (IdeRequest.progs t [⟨true, .primary, .master, 2, 1, 4096, id⟩, ⟨false, .primary, .master, 2, 1, 8192, id⟩]
      fun _ => 7).run ide booted = ((m', [0, 0]), s') := by
  have rest : Cables.Rest fun _ => pairCable := by
    intro channel slot d there
    obtain rfl : quickDrive = d := Option.some.inj there
    exact ⟨rfl, .inl rfl⟩
  have steady : ∀ (channel : IdeChannel) (slot : IdeDrive), ∀ d ∈ pairCable.drives slot,
      d.Steady fun _ => false := by
    intro channel slot d there
    obtain rfl : quickDrive = d := Option.some.inj there
    exact ⟨fun _ _ => show 0 < ideTimeout by decide, fun _ _ _ _ => rfl, fun _ _ _ _ => rfl⟩
  obtain ⟨t, booted, results, m', s', init, ran, steps⟩ := @ide_runs_refine (fun _ => pairCable)
    (fun _ _ _ => false) rest steady
    [⟨true, .primary, .master, 2, 1, 4096, id⟩, ⟨false, .primary, .master, 2, 1, 8192, id⟩] fun _ => 7
  obtain ⟨booted', again, -⟩ := run_ideInit rest
  have table : t = Cables.table fun _ => pairCable := congrArg Prod.fst (init.symm.trans again)
  have returned := congrArg Prod.snd steps
  rw [table] at returned
  have returned : [0, 0] = results := returned
  rw [← returned] at ran
  exact ⟨t, booted, m', s', init, ran⟩

end Kfs.Disk.Ata
