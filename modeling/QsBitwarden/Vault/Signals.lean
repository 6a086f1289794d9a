import QsBitwarden.Vault.Processes

/-!
# Vault — only the helper's own children are signalled

A process id is the system's to give again once its child was reaped. A thread reaps its child only
after it removed the entry, and whoever signals looks the entry up and signals under one lock; so
what is signalled was not reaped.

* **`Numbered`** — the children that are not reaped have process ids of their own.
* **`Lists`** — a child whose thread has not removed its entry yet: for a run, the list has exactly
  these (`Sound.listed`); for the auto-type, its entry is one (`Sound.entered`).
* **`LoopSound`**, `Sound.stoppers` — what a thread inside its lock has read is still so.
* **`signals_own_children`** — the invariant along every interleaving.
-/

namespace QsBitwarden.Vault.Processes

namespace Machine

/-- A child that is not reaped has this process id. -/
def Owns (m : Machine) (group : Nat) : Prop :=
  ∃ serial child, m.children.lookup serial = some child ∧ child.stage.unreaped = true ∧
    child.pid = group

/-- A child for this purpose whose thread has begun and has not removed its entry. -/
def Lists (m : Machine) (purpose : Purpose) (group : Nat) : Prop :=
  ∃ serial child, m.children.lookup serial = some child ∧ child.purpose = purpose ∧
    child.stage.listed = true ∧ child.pid = group

end Machine

theorem Stage.unreaped_of_listed {stage : Stage} (h : stage.listed = true) :
    stage.unreaped = true := by
  cases stage <;> first | rfl | cases h

theorem Machine.Lists.owns {m : Machine} {purpose : Purpose} {group : Nat}
    (h : m.Lists purpose group) : m.Owns group := by
  obtain ⟨serial, child, hchild, -, hlisted, hpid⟩ := h
  exact ⟨serial, child, hchild, Stage.unreaped_of_listed hlisted, hpid⟩

/-! ## Process ids -/

structure Numbered (m : Machine) : Prop where
  fresh : ∀ serial ∈ m.children, serial < m.spawned
  distinct : ∀ s s' c c', m.children.lookup s = some c → m.children.lookup s' = some c' →
    c.stage.unreaped = true → c'.stage.unreaped = true → c.pid = c'.pid → s = s'
  disjoint : ∀ s c, m.children.lookup s = some c → c.stage.unreaped = true → c.pid ∉ m.others

theorem Numbered.of_eq {m m' : Machine} (h : Numbered m) (hchildren : m'.children = m.children)
    (hspawned : m'.spawned = m.spawned) (hothers : ∀ pid ∈ m'.others, pid ∈ m.others) :
    Numbered m' where
  fresh := by
    rw [hchildren, hspawned]
    exact h.fresh
  distinct := by
    rw [hchildren]
    exact h.distinct
  disjoint s c hc hu hmem := by
    rw [hchildren] at hc
    exact h.disjoint s c hc hu (hothers _ hmem)

section Update

variable {m : Machine} {serial : Nat} {child child' : Child}

theorem lookup_put {s : Nat} {c : Child} : (m.put serial child').children.lookup s = some c ↔
    (s = serial ∧ c = child') ∨ (s ≠ serial ∧ m.children.lookup s = some c) :=
  Table.lookup_insert_eq_some

/-- What an unreaped child was before another step of its thread. -/
theorem before_put (hchild : m.children.lookup serial = some child) (hpid : child'.pid = child.pid)
    (hstage : child'.stage.unreaped = true → child.stage.unreaped = true) {s : Nat} {c : Child}
    (h : (m.put serial child').children.lookup s = some c) (hc : c.stage.unreaped = true) :
    ∃ old, m.children.lookup s = some old ∧ old.stage.unreaped = true ∧ old.pid = c.pid := by
  rcases lookup_put.mp h with ⟨rfl, rfl⟩ | ⟨-, h⟩
  · exact ⟨child, hchild, hstage hc, hpid.symm⟩
  · exact ⟨c, h, hc, rfl⟩

theorem Numbered.put (h : Numbered m) (hchild : m.children.lookup serial = some child)
    (hpid : child'.pid = child.pid)
    (hstage : child'.stage.unreaped = true → child.stage.unreaped = true) :
    Numbered (m.put serial child') where
  fresh s hs := by
    rcases (AList.mem_insert _).mp hs with rfl | hs
    · exact h.fresh _ (Table.mem_of_lookup hchild)
    · exact h.fresh s hs
  distinct s s' c c' hc hc' hu hu' heq := by
    obtain ⟨old, hold, huold, hpold⟩ := before_put hchild hpid hstage hc hu
    obtain ⟨old', hold', huold', hpold'⟩ := before_put hchild hpid hstage hc' hu'
    exact h.distinct s s' old old' hold hold' huold huold' (hpold.trans (heq.trans hpold'.symm))
  disjoint s c hc hu := by
    obtain ⟨old, hold, huold, hpold⟩ := before_put hchild hpid hstage hc hu
    rw [← hpold]
    exact h.disjoint s old hold huold

theorem Numbered.start (h : Numbered m) {pid : Nat} (hfree : m.Free pid) (purpose : Purpose)
    (stage : Stage) : Numbered (m.start pid purpose stage) where
  fresh s hs := by
    show s < m.spawned + 1
    rcases (AList.mem_insert _).mp hs with rfl | hs
    · omega
    · have := h.fresh s hs
      omega
  distinct s s' c c' hc hc' hu hu' heq := by
    -- The id of the new child is no other's.
    rcases lookup_put.mp hc with ⟨rfl, rfl⟩ | ⟨-, hc⟩ <;>
      rcases lookup_put.mp hc' with ⟨rfl, rfl⟩ | ⟨-, hc'⟩
    · rfl
    · exact absurd heq.symm (hfree.2 s' c' hc' hu')
    · exact absurd heq (hfree.2 s c hc hu)
    · exact h.distinct s s' c c' hc hc' hu hu' heq
  disjoint s c hc hu := by
    rcases lookup_put.mp hc with ⟨rfl, rfl⟩ | ⟨-, hc⟩
    · exact hfree.1
    · exact h.disjoint s c hc hu

theorem lists_put (child' : Child) (hchild : m.children.lookup serial = some child)
    (hpurpose : child'.purpose = child.purpose) (hpid : child'.pid = child.pid)
    {purpose : Purpose} {group : Nat}
    (hlisted : child.purpose = purpose → child'.stage.listed = child.stage.listed) :
    (m.put serial child').Lists purpose group ↔ m.Lists purpose group := by
  constructor
  · rintro ⟨s, c, hc, hp, hl, hg⟩
    rcases lookup_put.mp hc with ⟨rfl, rfl⟩ | ⟨-, hc⟩
    · have hp := hpurpose.symm.trans hp
      exact ⟨s, child, hchild, hp, hlisted hp ▸ hl, hpid ▸ hg⟩
    · exact ⟨s, c, hc, hp, hl, hg⟩
  · rintro ⟨s, c, hc, hp, hl, hg⟩
    by_cases hs : s = serial
    · subst hs
      obtain rfl := Option.some.inj (hc.symm.trans hchild)
      exact ⟨s, child', lookup_put.mpr (.inl ⟨rfl, rfl⟩), hpurpose.trans hp, hlisted hp ▸ hl,
        hpid.trans hg⟩
    · exact ⟨s, c, lookup_put.mpr (.inr ⟨hs, hc⟩), hp, hl, hg⟩

/-- A child that is not listed, or listed as something else, changes nothing. -/
theorem lists_start (h : Numbered m) {pid group : Nat} {purpose purpose' : Purpose} {stage : Stage}
    (hother : purpose' ≠ purpose ∨ stage.listed = false) :
    (m.start pid purpose' stage).Lists purpose group ↔ m.Lists purpose group := by
  constructor
  · rintro ⟨s, c, hc, hp, hl, hg⟩
    rcases lookup_put.mp hc with ⟨rfl, rfl⟩ | ⟨-, hc⟩
    · rcases hother with hne | hunlisted
      · exact absurd hp hne
      · exact absurd hl (by simp [hunlisted])
    · exact ⟨s, c, hc, hp, hl, hg⟩
  · rintro ⟨s, c, hc, hp, hl, hg⟩
    have hs : s ≠ m.spawned := Nat.ne_of_lt (h.fresh s (Table.mem_of_lookup hc))
    exact ⟨s, c, lookup_put.mpr (.inr ⟨hs, hc⟩), hp, hl, hg⟩

end Update

/-! ## The invariant -/

/-- What the request loop relies on where it is. -/
def LoopSound (m : Machine) : Loop → Prop
  | .spawning id => id ∉ m.runs ∧ m.runs.entries.length < maxRuns
  | .listing id serial => id ∉ m.runs ∧ m.runs.entries.length < maxRuns ∧
      ∃ child, m.children.lookup serial = some child ∧ child.purpose = .run id ∧
        child.stage = .spawned
  | .entering serial => ∃ child, m.children.lookup serial = some child ∧
      child.purpose = .typing ∧ child.stage = .spawned
  | .stopping (some group) _ => m.Lists .typing group
  | .signalling _ groups _ => ∀ group ∈ groups, ∃ id, m.runs.lookup id = some group
  | _ => True

/-- The children the request loop has spawned and not yet handed over. -/
def Loop.has (loop : Loop) (serial : Nat) : Purpose → Prop
  | .run id => loop = .listing id serial
  | .typing => loop = .entering serial
  | .aside => False

/-- It has a child of its own in its hands. -/
def Loop.handing : Loop → Bool
  | .listing _ _ | .entering _ => true
  | _ => false

/-- A child that holds the auto-type's slot. -/
def Child.holdsSlot (child : Child) : Prop := child.purpose = .typing ∧ child.stage ≠ .closed

structure Sound (m : Machine) : Prop where
  numbered : Numbered m
  listed : ∀ id group, m.runs.lookup id = some group ↔ m.Lists (.run id) group
  room : m.runs.entries.length ≤ maxRuns
  entered : ∀ group, m.typingGroup = some group → m.Lists .typing group
  spawned : ∀ s c, m.children.lookup s = some c → c.stage = .spawned → m.loop.has s c.purpose
  slot : m.typing ≤ 1
  slot_claimed : m.loop = .claimed → m.typing = 1 ∧
    ∀ s c, m.children.lookup s = some c → ¬c.holdsSlot
  slot_held : ∀ s c, m.children.lookup s = some c → c.holdsSlot → m.typing = 1
  slot_one : ∀ s s' c c', m.children.lookup s = some c → m.children.lookup s' = some c' →
    c.holdsSlot → c'.holdsSlot → s = s'
  loop : LoopSound m m.loop
  stoppers : ∀ id group, .found id group ∈ m.stoppers → m.runs.lookup id = some group

theorem Sound.new : Sound .new where
  numbered := ⟨by simp [Machine.new], by simp [Machine.new], by simp [Machine.new]⟩
  listed := by simp [Machine.new, Machine.Lists]
  room := by simp [Machine.new]
  entered := by simp [Machine.new]
  spawned := by simp [Machine.new]
  slot := by simp [Machine.new]
  slot_claimed := by simp [Machine.new]
  slot_held := by simp [Machine.new]
  slot_one := by simp [Machine.new]
  loop := trivial
  stoppers := by simp [Machine.new]

namespace Sound

variable {m : Machine}

/-! ### Steps of the request loop and of the delayed stops -/

/-- A child in the hands of the request loop stays there as long as the loop does. -/
theorem not_spawned (h : Sound m) (hhands : m.loop.handing = false) {s : Nat} {c : Child}
    (hc : m.children.lookup s = some c) : c.stage ≠ .spawned := by
  intro hstage
  have hhas := h.spawned s c hc hstage
  cases hpurpose : c.purpose <;> rw [hpurpose] at hhas
  case aside => exact hhas
  all_goals
    rw [hhas] at hhands
    cases hhands

/-- A step that only moves the request loop, and no child is in its hands. -/
theorem moveLoop (h : Sound m) (loop : Loop) (hhands : m.loop.handing = false)
    (hclaimed : loop ≠ .claimed)
    (hloop : LoopSound m loop) : Sound { m with loop } :=
  { h with
    numbered := h.numbered.of_eq rfl rfl fun _ => id
    spawned := fun _ _ hc hstage => absurd hstage (h.not_spawned hhands hc)
    slot_claimed := fun heq => absurd heq hclaimed
    loop := hloop }

theorem setStoppers (h : Sound m) (stoppers : List Stopper)
    (hstoppers : ∀ id group, .found id group ∈ stoppers → m.runs.lookup id = some group) :
    Sound { m with stoppers } :=
  { h with
    numbered := h.numbered.of_eq rfl rfl fun _ => id
    stoppers := hstoppers }

theorem setOthers (h : Sound m) (others : List Nat)
    (hothers : ∀ pid ∈ others, pid ∈ m.others ∨ m.Free pid) : Sound { m with others } :=
  { h with
    numbered :=
      { fresh := h.numbered.fresh
        distinct := h.numbered.distinct
        disjoint := fun s c hc hu hmem => by
          rcases hothers _ hmem with hold | hfree
          · exact h.numbered.disjoint s c hc hu hold
          · exact hfree.2 s c hc hu rfl } }

/-- No delayed stop has read the list while it is unlocked. -/
theorem not_found (hlock : m.runsLocked = false) {id group : Nat} :
    .found id group ∉ m.stoppers := by
  intro hmem
  have hheld : m.stoppers.any (·.holdsRuns) = true := List.any_eq_true.mpr ⟨_, hmem, rfl⟩
  unfold Machine.runsLocked at hlock
  rw [hheld, Bool.or_true] at hlock
  cases hlock

/-! ### Steps of a child's thread -/

variable {serial : Nat} {child child' : Child}

variable (h : Sound m)
include h

/-- A child moves on, and entries are made or removed with it. -/
theorem put (child' : Child) (runs : Table Nat Nat) (typingGroup : Option Nat) (loop : Loop)
    (hchild : m.children.lookup serial = some child) (hpurpose : child'.purpose = child.purpose)
    (hpid : child'.pid = child.pid)
    (hunreaped : child'.stage.unreaped = true → child.stage.unreaped = true)
    (hclosed : child'.stage = .closed ↔ child.stage = .closed) (hlisted : ∀ id group,
      runs.lookup id = some group ↔ (m.put serial child').Lists (.run id) group)
    (hroom : runs.entries.length ≤ maxRuns)
    (hentered : ∀ group, typingGroup = some group → (m.put serial child').Lists .typing group)
    (hspawned : ∀ s c, (m.put serial child').children.lookup s = some c → c.stage = .spawned →
      loop.has s c.purpose) (hclaimed : loop = .claimed → m.loop = .claimed)
    (hloop : LoopSound { m.put serial child' with runs } loop)
    (hstoppers : ∀ id group, .found id group ∈ m.stoppers → runs.lookup id = some group) :
    Sound { m.put serial child' with runs, typingGroup, loop } := by
  -- The slot is held by the same children.
  have hbefore : ∀ s c, (m.put serial child').children.lookup s = some c → c.holdsSlot →
      ∃ old, m.children.lookup s = some old ∧ old.holdsSlot := by
    intro s c hc hslot
    rcases lookup_put.mp hc with ⟨rfl, rfl⟩ | ⟨-, hc⟩
    · exact ⟨child, hchild, hpurpose.symm.trans hslot.1, fun h => hslot.2 (hclosed.mpr h)⟩
    · exact ⟨c, hc, hslot⟩
  exact {
    numbered := (h.numbered.put hchild hpid hunreaped).of_eq rfl rfl fun _ => id
    listed := hlisted
    room := hroom
    entered := hentered
    spawned := hspawned
    slot := h.slot
    slot_claimed := fun heq => by
      obtain ⟨hone, hnone⟩ := h.slot_claimed (hclaimed heq)
      refine ⟨hone, fun s c hc hslot => ?_⟩
      obtain ⟨old, hold, hslot⟩ := hbefore s c hc hslot
      exact hnone s old hold hslot
    slot_held := fun s c hc hslot => by
      obtain ⟨old, hold, hslot⟩ := hbefore s c hc hslot
      exact h.slot_held s old hold hslot
    slot_one := fun s s' c c' hc hc' hslot hslot' => by
      obtain ⟨old, hold, hslot⟩ := hbefore s c hc hslot
      obtain ⟨old', hold', hslot'⟩ := hbefore s' c' hc' hslot'
      exact h.slot_one s s' old old' hold hold' hslot hslot'
    loop := hloop
    stoppers := hstoppers }

/-- A child that was not in the hands of the request loop is not put there. -/
theorem spawned_put (child' : Child) (hchild : m.children.lookup serial = some child)
    (hpurpose : child'.purpose = child.purpose)
    (hstage : child'.stage = .spawned → child.stage = .spawned) {s : Nat} {c : Child}
    (hc : (m.put serial child').children.lookup s = some c) (hspawned : c.stage = .spawned) :
    m.loop.has s c.purpose := by
  rcases lookup_put.mp hc with ⟨rfl, rfl⟩ | ⟨-, hc⟩
  · rw [hpurpose]
    exact h.spawned s child hchild (hstage hspawned)
  · exact h.spawned s c hc hspawned

/-- The request loop keeps what it relies on while a child moves on: the one in its hands does not,
and the lists keep what a locked list has. -/
theorem loop_put (child' : Child) (hchild : m.children.lookup serial = some child)
    (hpurpose : child'.purpose = child.purpose)
    (hstage : child.stage = .spawned → child'.stage = .spawned) {runs : Table Nat Nat}
    (hfewer : ∀ id group, runs.lookup id = some group → m.runs.lookup id = some group)
    (hlength : runs.entries.length ≤ m.runs.entries.length)
    (hruns : m.loop.holdsRuns = true → runs = m.runs)
    (htyping : m.loop.holdsTyping = true → ∀ group, m.Lists .typing group →
      (m.put serial child').Lists .typing group) :
    LoopSound { m.put serial child' with runs } m.loop := by
  have hold := h.loop
  -- The child the loop has spawned is still as it was.
  have hkept : ∀ s c, m.children.lookup s = some c → c.stage = .spawned →
      ∃ new, (m.put serial child').children.lookup s = some new ∧ new.purpose = c.purpose ∧
        new.stage = .spawned := by
    intro s c hc hspawned
    by_cases hs : s = serial
    · subst hs
      obtain rfl := Option.some.inj (hc.symm.trans hchild)
      exact ⟨child', lookup_put.mpr (.inl ⟨rfl, rfl⟩), hpurpose, hstage hspawned⟩
    · exact ⟨c, lookup_put.mpr (.inr ⟨hs, hc⟩), rfl, hspawned⟩
  have habsent : ∀ id, id ∉ m.runs → id ∉ runs := by
    intro id hid hmem
    obtain ⟨group, hgroup⟩ := Table.exists_lookup hmem
    exact hid (Table.mem_of_lookup (hfewer id group hgroup))
  cases hloop : m.loop with
  | spawning id =>
    rw [hloop] at hold
    exact ⟨habsent id hold.1, lt_of_le_of_lt hlength hold.2⟩
  | listing id s =>
    rw [hloop] at hold
    obtain ⟨hid, hroom, c, hc, hc', hspawned⟩ := hold
    obtain ⟨new, hnew, hpurpose', hstage'⟩ := hkept s c hc hspawned
    exact ⟨habsent id hid, lt_of_le_of_lt hlength hroom, new, hnew, hpurpose'.trans hc', hstage'⟩
  | entering s =>
    rw [hloop] at hold
    obtain ⟨c, hc, hc', hspawned⟩ := hold
    obtain ⟨new, hnew, hpurpose', hstage'⟩ := hkept s c hc hspawned
    exact ⟨new, hnew, hpurpose'.trans hc', hstage'⟩
  | stopping group atEnd =>
    rw [hloop] at hold
    cases group with
    | none => trivial
    | some group => exact htyping (by rw [hloop]; rfl) group hold
  | signalling signal groups any =>
    rw [hloop] at hold
    obtain rfl := hruns (by rw [hloop]; rfl)
    exact hold
  | idle | killing | killed | claimed | ending | finished => trivial

/-- A step on which no entry and no slot depends. -/
theorem putQuiet (hchild : m.children.lookup serial = some child)
    (hpurpose : child'.purpose = child.purpose) (hpid : child'.pid = child.pid)
    (hlisted : child.purpose ≠ .aside → child'.stage.listed = child.stage.listed)
    (hunreaped : child'.stage.unreaped = true → child.stage.unreaped = true)
    (hspawned : child'.stage = .spawned ↔ child.stage = .spawned)
    (hclosed : child'.stage = .closed ↔ child.stage = .closed) : Sound (m.put serial child') := by
  have hlists : ∀ purpose, purpose ≠ .aside → ∀ group,
      (m.put serial child').Lists purpose group ↔ m.Lists purpose group :=
    fun purpose hne group => lists_put child' hchild hpurpose hpid fun heq => hlisted (heq ▸ hne)
  exact h.put child' m.runs m.typingGroup m.loop hchild hpurpose hpid hunreaped hclosed
    (fun id group => (h.listed id group).trans (hlists _ (by simp) group).symm) h.room
    (fun group hgroup => (hlists _ (by simp) group).mpr (h.entered group hgroup))
    (fun s c => h.spawned_put child' hchild hpurpose hspawned.mp) id
    (h.loop_put child' hchild hpurpose hspawned.mpr (fun _ _ => id) (Nat.le_refl _) (fun _ => rfl)
      fun _ group => (hlists _ (by simp) group).mpr) h.stoppers

theorem unlistRun {id : Nat} (hchild : m.children.lookup serial = some child)
    (hpurpose : child.purpose = .run id) (hstage : child.stage = .waited)
    (hlock : m.runsLocked = false) :
    Sound { m.put serial (child.reach .unlisted) with runs := m.runs.erase id } := by
  have hmine : m.runs.lookup id = some child.pid :=
    (h.listed id child.pid).mpr ⟨serial, child, hchild, hpurpose, by rw [hstage]; rfl, rfl⟩
  have htyping : ∀ group, m.Lists .typing group →
      (m.put serial (child.reach .unlisted)).Lists .typing group := fun group =>
    (lists_put (child.reach .unlisted) hchild rfl rfl
      fun heq => by rw [hpurpose] at heq; cases heq).mpr
  refine h.put (child.reach .unlisted) (m.runs.erase id) m.typingGroup m.loop hchild rfl rfl
    (fun _ => by rw [hstage]; rfl) (by simp [Child.reach, hstage]) ?_ ?_
    (fun group hgroup => htyping group (h.entered group hgroup))
    (fun s c => h.spawned_put (child.reach .unlisted) hchild rfl (by simp [Child.reach])) (fun heq => heq)
    (h.loop_put (child.reach .unlisted) hchild rfl (by simp [Child.reach, hstage]) ?_ Table.length_erase_le ?_ fun _ => htyping)
    fun id group hmem => absurd hmem (not_found hlock)
  · intro id' group
    rw [Table.lookup_erase_eq_some, h.listed]
    constructor
    · rintro ⟨hne, s, c, hc, hp, hl, hg⟩
      have hs : s ≠ serial := by
        rintro rfl
        obtain rfl := Option.some.inj (hc.symm.trans hchild)
        exact hne (Purpose.run.inj (hp.symm.trans hpurpose))
      exact ⟨s, c, lookup_put.mpr (.inr ⟨hs, hc⟩), hp, hl, hg⟩
    · rintro ⟨s, c, hc, hp, hl, hg⟩
      rcases lookup_put.mp hc with ⟨rfl, rfl⟩ | ⟨hs, hc⟩
      · cases hl
      · refine ⟨?_, s, c, hc, hp, hl, hg⟩
        rintro rfl
        -- A second run under this id would have the same entry, and the same process id.
        have hother := (h.listed id' c.pid).mpr ⟨s, c, hc, hp, hl, rfl⟩
        have hpid : c.pid = child.pid := Option.some.inj (hother.symm.trans hmine)
        exact hs (h.numbered.distinct s serial c child hc hchild (Stage.unreaped_of_listed hl)
          (by rw [hstage]; rfl) hpid)
  · exact le_trans Table.length_erase_le h.room
  · exact fun id' group hgroup => (Table.lookup_erase_eq_some.mp hgroup).2
  · intro hholds
    unfold Machine.runsLocked at hlock
    rw [hholds] at hlock
    cases hlock

theorem unlistTyping (hchild : m.children.lookup serial = some child)
    (hpurpose : child.purpose = .typing) (hstage : child.stage = .waited)
    (hlock : m.loop.holdsTyping = false) :
    Sound { m.put serial (child.reach .unlisted) with typingGroup := none } := by
  have hlists : ∀ id group, (m.put serial (child.reach .unlisted)).Lists (.run id) group ↔
      m.Lists (.run id) group := fun id group =>
    lists_put (child.reach .unlisted) hchild rfl rfl
      fun heq => by rw [hpurpose] at heq; cases heq
  refine h.put (child.reach .unlisted) m.runs none m.loop hchild rfl rfl
    (fun _ => by rw [hstage]; rfl) (by simp [Child.reach, hstage])
    (fun id group => (h.listed id group).trans (hlists id group).symm) h.room
    (fun group hgroup => by cases hgroup) (fun s c => h.spawned_put (child.reach .unlisted) hchild rfl (by simp [Child.reach])) (fun heq => heq)
    (h.loop_put (child.reach .unlisted) hchild rfl (by simp [Child.reach, hstage]) (fun _ _ => id) (Nat.le_refl _) (fun _ => rfl) ?_)
    h.stoppers
  intro hholds
  rw [hholds] at hlock
  cases hlock

omit h

/-! ### A child handed over to its thread -/

theorem has_serial {loop : Loop} {s s' : Nat} {purpose purpose' : Purpose}
    (h : loop.has s purpose) (h' : loop.has s' purpose') : s = s' := by
  cases purpose <;> cases purpose' <;> simp only [Loop.has] at h h' <;> subst h <;> simp_all

variable (h : Sound m)
include h

theorem not_spawned_put (hhas : m.loop.has serial child.purpose) {s : Nat} {c : Child}
    (hc : (m.put serial (child.reach .working)).children.lookup s = some c) :
    c.stage ≠ .spawned := by
  intro hspawned
  rcases lookup_put.mp hc with ⟨rfl, rfl⟩ | ⟨hs, hc⟩
  · cases hspawned
  · exact hs (has_serial (h.spawned s c hc hspawned) hhas)

theorem list {id : Nat} (hloop : m.loop = .listing id serial)
    (hchild : m.children.lookup serial = some child) (hlock : m.runsLocked = false) :
    Sound { m.put serial (child.reach .working) with
      runs := m.runs.insert id child.pid, loop := .idle } := by
  have hsound := h.loop
  rw [hloop] at hsound
  obtain ⟨hid, hroom, c, hc, hpurpose, hstage⟩ := hsound
  obtain rfl := Option.some.inj (hc.symm.trans hchild)
  have hhas : m.loop.has serial c.purpose := h.spawned serial c hchild hstage
  have hsame : c.purpose = .typing → Stage.working.listed = c.stage.listed := fun heq => by
    rw [hpurpose] at heq
    cases heq
  refine h.put (c.reach .working) (m.runs.insert id c.pid) m.typingGroup .idle hchild rfl rfl
    (fun _ => by rw [hstage]; rfl) (by simp [Child.reach, hstage]) ?_ ?_
    (fun group hgroup => (lists_put (c.reach .working) hchild rfl rfl hsame).mpr (h.entered group hgroup))
    (fun s c' hc' hspawned => absurd hspawned (h.not_spawned_put hhas hc')) (by simp) trivial
    fun id group hmem => absurd hmem (not_found hlock)
  · intro id' group
    rw [Table.lookup_insert_eq_some, h.listed]
    constructor
    · rintro (⟨rfl, rfl⟩ | ⟨hne, s, c', hc', hp, hl, hg⟩)
      · exact ⟨serial, _, lookup_put.mpr (.inl ⟨rfl, rfl⟩), hpurpose, rfl, rfl⟩
      · have hs : s ≠ serial := by
          rintro rfl
          obtain rfl := Option.some.inj (hc'.symm.trans hchild)
          exact hne (Purpose.run.inj (hp.symm.trans hpurpose))
        exact ⟨s, c', lookup_put.mpr (.inr ⟨hs, hc'⟩), hp, hl, hg⟩
    · rintro ⟨s, c', hc', hp, hl, hg⟩
      rcases lookup_put.mp hc' with ⟨rfl, rfl⟩ | ⟨hs, hc'⟩
      · exact .inl ⟨Purpose.run.inj (hp.symm.trans hpurpose), hg.symm⟩
      · refine .inr ⟨?_, s, c', hc', hp, hl, hg⟩
        rintro rfl
        exact hid (Table.mem_of_lookup ((h.listed id' group).mpr ⟨s, c', hc', hp, hl, hg⟩))
  · have hlength := Table.length_insert_of_notMem (v := c.pid) hid
    omega

theorem enter (hloop : m.loop = .entering serial) (hchild : m.children.lookup serial = some child) :
    Sound { m.put serial (child.reach .working) with
      typingGroup := some child.pid, loop := .idle } := by
  have hsound := h.loop
  rw [hloop] at hsound
  obtain ⟨c, hc, hpurpose, hstage⟩ := hsound
  obtain rfl := Option.some.inj (hc.symm.trans hchild)
  have hhas : m.loop.has serial c.purpose := h.spawned serial c hchild hstage
  refine h.put (c.reach .working) m.runs (some c.pid) .idle hchild rfl rfl
    (fun _ => by rw [hstage]; rfl) (by simp [Child.reach, hstage]) ?_ h.room ?_
    (fun s c' hc' hspawned => absurd hspawned (h.not_spawned_put hhas hc')) (by simp) trivial
    h.stoppers
  · intro id group
    refine (h.listed id group).trans (lists_put (c.reach .working) hchild rfl rfl fun heq => ?_).symm
    rw [hpurpose] at heq
    cases heq
  · rintro group ⟨rfl⟩
    exact ⟨serial, _, lookup_put.mpr (.inl ⟨rfl, rfl⟩), hpurpose, rfl, rfl⟩

/-! ### A new child -/

theorem start {pid : Nat} (hfree : m.Free pid) {purpose : Purpose} {stage : Stage} (loop : Loop)
    (hunlisted : purpose = .aside ∨ stage.listed = false)
    (hhands : m.loop.handing = false)
    (hhas : stage = .spawned → loop.has m.spawned purpose)
    (hslot : purpose = .typing → m.loop = .claimed) (hclaimed : loop ≠ .claimed)
    (hloop : LoopSound (m.start pid purpose stage) loop) :
    Sound { m.start pid purpose stage with loop } := by
  have hlists : ∀ purpose', purpose' ≠ .aside → ∀ group,
      (m.start pid purpose stage).Lists purpose' group ↔ m.Lists purpose' group := by
    intro purpose' hne group
    refine lists_start h.numbered (hunlisted.imp_left fun haside => ?_)
    rw [haside]
    exact hne.symm
  -- Before an auto-type the slot is the request loop's, and no child's.
  have hfresh : purpose = .typing → ∀ s c, m.children.lookup s = some c → ¬c.holdsSlot :=
    fun heq => (h.slot_claimed (hslot heq)).2
  exact {
    numbered := (h.numbered.start hfree purpose stage).of_eq rfl rfl fun _ => id
    listed := fun id group => (h.listed id group).trans (hlists _ (by simp) group).symm
    room := h.room
    entered := fun group hgroup => (hlists _ (by simp) group).mpr (h.entered group hgroup)
    spawned := fun s c hc hstage => by
      rcases lookup_put.mp hc with ⟨rfl, rfl⟩ | ⟨-, hc⟩
      · exact hhas hstage
      · exact absurd hstage (h.not_spawned hhands hc)
    slot := h.slot
    slot_claimed := fun heq => absurd heq hclaimed
    slot_held := fun s c hc hholds => by
      rcases lookup_put.mp hc with ⟨rfl, rfl⟩ | ⟨-, hc⟩
      · exact (h.slot_claimed (hslot hholds.1)).1
      · exact h.slot_held s c hc hholds
    slot_one := fun s s' c c' hc hc' hholds hholds' => by
      rcases lookup_put.mp hc with ⟨rfl, rfl⟩ | ⟨-, hc⟩ <;>
        rcases lookup_put.mp hc' with ⟨rfl, rfl⟩ | ⟨-, hc'⟩
      · rfl
      · exact absurd hholds' (hfresh hholds.1 s' c' hc')
      · exact absurd hholds (hfresh hholds'.1 s c hc)
      · exact h.slot_one s s' c c' hc hc' hholds hholds'
    loop := hloop
    stoppers := h.stoppers }

/-! ### The slot -/

theorem claim (hloop : m.loop = .idle) (hslot : m.typing < 1) :
    Sound { m with typing := m.typing + 1, loop := .claimed } := by
  have hzero : m.typing = 0 := by omega
  have hnone : ∀ s c, m.children.lookup s = some c → ¬c.holdsSlot := fun s c hc hholds => by
    have := h.slot_held s c hc hholds
    omega
  exact { h with
    numbered := h.numbered.of_eq rfl rfl fun _ => id
    spawned := fun _ _ hc hstage => absurd hstage (h.not_spawned (by rw [hloop]; rfl) hc)
    slot := by show m.typing + 1 ≤ 1; omega
    slot_claimed := fun _ => ⟨by show m.typing + 1 = 1; omega, hnone⟩
    slot_held := fun s c hc hholds => absurd hholds (hnone s c hc)
    loop := trivial }

theorem unclaim (hloop : m.loop = .claimed) :
    Sound { m with typing := m.typing - 1, loop := .idle } := by
  obtain ⟨hone, hnone⟩ := h.slot_claimed hloop
  exact { h with
    numbered := h.numbered.of_eq rfl rfl fun _ => id
    spawned := fun _ _ hc hstage => absurd hstage (h.not_spawned (by rw [hloop]; rfl) hc)
    slot := by show m.typing - 1 ≤ 1; omega
    slot_claimed := fun heq => by cases heq
    slot_held := fun s c hc hholds => absurd hholds (hnone s c hc)
    loop := trivial }

/-- The slot is given back once its child was reaped: no other child has it. -/
theorem close (hchild : m.children.lookup serial = some child)
    (hpurpose : child.purpose = .typing) (hstage : child.stage = .reaped) :
    Sound { m.put serial (child.reach .closed) with typing := m.typing - 1 } := by
  have hmine : child.holdsSlot := ⟨hpurpose, by simp [hstage]⟩
  have hone := h.slot_held serial child hchild hmine
  have hnone : ∀ s c, (m.put serial (child.reach .closed)).children.lookup s = some c →
      ¬c.holdsSlot := by
    intro s c hc hholds
    rcases lookup_put.mp hc with ⟨rfl, rfl⟩ | ⟨hs, hc⟩
    · exact hholds.2 rfl
    · exact hs (h.slot_one s serial c child hc hchild hholds hmine)
  have hsame : (child.reach .closed).stage.listed = child.stage.listed := by
    rw [hstage]
    rfl
  have hlists : ∀ purpose group, (m.put serial (child.reach .closed)).Lists purpose group ↔
      m.Lists purpose group :=
    fun purpose group => lists_put (child.reach .closed) hchild rfl rfl fun _ => hsame
  have hnumbered : Numbered (m.put serial (child.reach .closed)) :=
    h.numbered.put hchild rfl fun hu => by cases hu
  exact {
    numbered := hnumbered.of_eq rfl rfl fun _ => id
    listed := fun id group => (h.listed id group).trans (hlists _ group).symm
    room := h.room
    entered := fun group hgroup => (hlists _ group).mpr (h.entered group hgroup)
    spawned := fun s c => h.spawned_put (child.reach .closed) hchild rfl (by simp [Child.reach])
    slot := by show m.typing - 1 ≤ 1; omega
    slot_claimed := fun heq => absurd hmine ((h.slot_claimed heq).2 serial child hchild)
    slot_held := fun s c hc hholds => absurd hholds (hnone s c hc)
    slot_one := fun s _ c _ hc _ hholds _ => absurd hholds (hnone s c hc)
    loop := h.loop_put (child.reach .closed) hchild rfl (by simp [hstage]) (fun _ _ => id)
      (Nat.le_refl _) (fun _ => rfl) fun _ group => (hlists _ group).mpr
    stoppers := h.stoppers }

omit h

/-! ### Every step -/

theorem found_set {stoppers : List Stopper} {at' id group : Nat} {stopper : Stopper}
    (hmem : .found id group ∈ stoppers.set at' stopper) :
    .found id group ∈ stoppers ∨ stopper = .found id group :=
  (List.mem_or_eq_of_mem_set hmem).imp_right Eq.symm

theorem step (h : Sound m) {sent : Option (Nat × Signal)} {m' : Machine} (hstep : Step m sent m') :
    Sound m' := by
  cases hstep with
  | otherStarts hfree =>
    refine h.setOthers _ fun pid hpid => ?_
    rcases List.mem_cons.mp hpid with rfl | hpid
    · exact .inr hfree
    · exact .inl hpid
  | otherEnds pid => exact h.setOthers _ fun pid hpid => .inl (List.mem_filter.mp hpid).1
  | exits hchild => exact h.putQuiet hchild rfl rfl (fun _ => rfl) id .rfl .rfl
  | exec hloop hlock hroom hid =>
    exact h.moveLoop _ (by rw [hloop]; rfl) (by simp) ⟨hid, hroom⟩
  | spawnFails hloop =>
    exact h.moveLoop _ (by rw [hloop]; rfl) (by simp) trivial
  | @spawns id pid hloop hfree =>
    have hsound := h.loop
    rw [hloop] at hsound
    refine h.start hfree _ (.inr rfl) (by rw [hloop]; rfl) (fun _ => rfl) (by simp)
      (by simp) ⟨hsound.1, hsound.2, _, lookup_put.mpr (.inl ⟨rfl, rfl⟩), rfl, rfl⟩
  | lists hloop hchild hlock => exact h.list hloop hchild hlock
  | startsAside hloop hfree =>
    refine h.start hfree m.loop (.inl rfl) (by rw [hloop]; rfl) (by simp) (by simp)
      (by simp [hloop]) ?_
    rw [hloop]
    trivial
  | kill id hloop hlock | killMisses hloop hrun | killSignals hloop hrun =>
    exact h.moveLoop _ (by rw [hloop]; rfl) (by simp) trivial
  | killEnds hloop =>
    refine (h.moveLoop .idle (by rw [hloop]; rfl) (by simp) trivial).setStoppers _ ?_
    intro id group hmem
    refine h.stoppers id group ?_
    simpa using hmem
  | stopperFinds hstopper hlock hrun =>
    refine h.setStoppers _ fun id group hmem => ?_
    rcases found_set hmem with hmem | heq
    · exact h.stoppers id group hmem
    · cases heq
      exact hrun
  | stopperMisses hstopper hlock hrun | stopperSignals hstopper =>
    refine h.setStoppers _ fun id group hmem => ?_
    rcases found_set hmem with hmem | heq
    · exact h.stoppers id group hmem
    · cases heq
  | claims hloop hslot => exact h.claim hloop hslot
  | typeFails hloop => exact h.unclaim hloop
  | typeSpawns hloop hfree =>
    exact h.start hfree _ (.inr rfl) (by rw [hloop]; rfl) (fun _ => rfl)
      (fun _ => hloop) (by simp) ⟨_, lookup_put.mpr (.inl ⟨rfl, rfl⟩), rfl, rfl⟩
  | enters hloop hchild => exact h.enter hloop hchild
  | stopTyping atEnd hloop =>
    have htaken : LoopSound m (.stopping m.typingGroup atEnd) := by
      cases hgroup : m.typingGroup with
      | none => trivial
      | some group => exact h.entered group hgroup
    have hmoved := h.moveLoop _ (by rw [hloop]; rfl) (by simp) htaken
    exact { hmoved with
      numbered := hmoved.numbered.of_eq rfl rfl fun _ => id
      entered := fun group hgroup => by cases hgroup }
  | @stopMisses atEnd hloop | @stopSignals group atEnd hloop =>
    exact h.moveLoop _ (by rw [hloop]; rfl) (by cases atEnd <;> simp)
      (by cases atEnd <;> trivial)
  | endLocks hloop hlock =>
    refine h.moveLoop _ (by rw [hloop]; rfl) (by simp) ?_
    intro group hgroup
    obtain ⟨entry, hentry, rfl⟩ := List.mem_map.mp hgroup
    exact ⟨entry.1, Table.lookup_eq_some_iff.mpr hentry⟩
  | endSignals hloop =>
    have hsound := h.loop
    rw [hloop] at hsound
    exact h.moveLoop _ (by rw [hloop]; rfl) (by simp)
      fun group hgroup => hsound group (List.mem_cons_of_mem _ hgroup)
  | endUnlocks hloop =>
    refine h.moveLoop _ (by rw [hloop]; rfl) ?_ ?_
    · split <;> simp
    · split <;> trivial
  | ends hchild hpurpose hstage | waits hchild hstage hexited =>
    exact h.putQuiet hchild rfl rfl (fun _ => by rw [hstage]; rfl) (fun _ => by rw [hstage]; rfl)
      (by simp [Child.reach, hstage]) (by simp [Child.reach, hstage])
  | unlistsRun hchild hpurpose hstage hlock => exact h.unlistRun hchild hpurpose hstage hlock
  | unlistsTyping hchild hpurpose hstage hlock => exact h.unlistTyping hchild hpurpose hstage hlock
  | reaps hchild hstage hexited =>
    refine h.putQuiet hchild rfl rfl ?_ (fun hu => by cases hu) ?_ ?_
    · intro haside
      rcases hstage with hstage | ⟨hpurpose, -⟩
      · rw [hstage]
        rfl
      · exact absurd hpurpose haside
    all_goals rcases hstage with hstage | ⟨-, hstage⟩ <;> simp [Child.reach, hstage]
  | closes hchild hpurpose hstage => exact h.close hchild hpurpose hstage

end Sound

/-! ## Every interleaving -/

theorem run_sound {h : List (Option (Nat × Signal))} {m : Machine} (run : system.Run h m) :
    Sound m := by
  refine run.invariant (I := fun _ m => Sound m) ?_ ?_
  · intro m hinit
    rw [hinit]
    exact .new
  · intro h m sent m' _ hsound hstep
    exact hsound.step hstep

/-- Whoever signals has the group from a list that still has it. -/
theorem Sound.signals {m : Machine} (h : Sound m) {group : Nat} {signal : Signal} {m' : Machine}
    (hstep : Step m (some (group, signal)) m') : m.Owns group := by
  have hlisted : ∀ id, m.runs.lookup id = some group → m.Owns group :=
    fun id hrun => ((h.listed id group).mp hrun).owns
  have hloop := h.loop
  cases hstep with
  | @killSignals id _ _ hrun => exact hlisted id hrun
  | @stopperSignals at' id _ hstopper =>
    exact hlisted id (h.stoppers id group (List.mem_of_getElem? hstopper))
  | stopSignals heq =>
    rw [heq] at hloop
    exact hloop.owns
  | endSignals heq =>
    rw [heq] at hloop
    obtain ⟨id, hrun⟩ := hloop group List.mem_cons_self
    exact hlisted id hrun

/-- In every interleaving: a signal goes to the group of a child that was not reaped, and of no other
process; the list has distinct such runs, at most `MAX_RUNS` of them; a run whose output has not
ended is listed under its id, unless the request loop is between spawning and listing it; and there
is at most one auto-type child. -/
theorem signals_own_children {h : List (Option (Nat × Signal))} {m : Machine}
    (run : system.Run h m) :
    (∀ group signal m', Step m (some (group, signal)) m' → m.Owns group ∧ group ∉ m.others) ∧
    (∀ id group, m.runs.lookup id = some group → ∃ s c, m.children.lookup s = some c ∧
      c.purpose = .run id ∧ c.stage.unreaped = true ∧ c.pid = group) ∧
    (∀ id id' group, m.runs.lookup id = some group → m.runs.lookup id' = some group → id = id') ∧
    m.runs.entries.length ≤ maxRuns ∧
    (∀ s c id, m.children.lookup s = some c → c.purpose = .run id →
      (c.stage = .working → m.runs.lookup id = some c.pid) ∧
      (c.stage = .spawned → m.loop = .listing id s)) ∧
    (∀ s s' c c', m.children.lookup s = some c → m.children.lookup s' = some c' →
      c.purpose = .typing → c'.purpose = .typing → c.stage.unreaped = true →
      c'.stage.unreaped = true → s = s') := by
  have hsound := run_sound run
  refine ⟨fun group signal m' hstep => ?_, fun id group hrun => ?_, fun id id' group hrun hrun' => ?_,
    hsound.room, fun s c id hc hpurpose => ⟨fun hstage => ?_, fun hstage => ?_⟩,
    fun s s' c c' hc hc' hp hp' hu hu' => ?_⟩
  · have howns := hsound.signals hstep
    obtain ⟨s, c, hc, hu, rfl⟩ := howns
    exact ⟨⟨s, c, hc, hu, rfl⟩, hsound.numbered.disjoint s c hc hu⟩
  · obtain ⟨s, c, hc, hpurpose, hlisted, hpid⟩ := (hsound.listed id group).mp hrun
    exact ⟨s, c, hc, hpurpose, Stage.unreaped_of_listed hlisted, hpid⟩
  · -- One group, one child, one id.
    obtain ⟨s, c, hc, hp, hl, hpid⟩ := (hsound.listed id group).mp hrun
    obtain ⟨s', c', hc', hp', hl', hpid'⟩ := (hsound.listed id' group).mp hrun'
    obtain rfl := hsound.numbered.distinct s s' c c' hc hc' (Stage.unreaped_of_listed hl)
      (Stage.unreaped_of_listed hl') (hpid.trans hpid'.symm)
    obtain rfl := Option.some.inj (hc.symm.trans hc')
    exact Purpose.run.inj (hp.symm.trans hp')
  · exact (hsound.listed id c.pid).mpr ⟨s, c, hc, hpurpose, by rw [hstage]; rfl, rfl⟩
  · have hhas := hsound.spawned s c hc hstage
    rw [hpurpose] at hhas
    exact hhas
  · have hslot : ∀ c : Child, c.purpose = .typing → c.stage.unreaped = true → c.holdsSlot := by
      intro c hp hu
      refine ⟨hp, fun hclosed => ?_⟩
      rw [hclosed] at hu
      cases hu
    exact hsound.slot_one s s' c c' hc hc' (hslot c hp hu) (hslot c' hp' hu')

/-- Run 7 is spawned with process id 100, and not listed yet. -/
def spawnedRun : Machine :=
  { Machine.new.start 100 (.run 7) .spawned with loop := .listing 7 0 }

def oneRun : Machine :=
  { spawnedRun.put 0 ⟨100, .run 7, false, .working⟩ with
    runs := (∅ : Table Nat Nat).insert 7 100, loop := .idle }

theorem oneRun_run : system.Run [none, none, none, none] { oneRun with loop := .killing 7 } := by
  have hexec : Step .new none { Machine.new with loop := .spawning 7 } :=
    .exec rfl rfl (by decide) (by simp [Machine.new])
  have hspawns : Step { Machine.new with loop := .spawning 7 } none spawnedRun :=
    .spawns rfl ⟨by simp [Machine.new], by simp [Machine.new]⟩
  have hchild : spawnedRun.children.lookup 0 = some ⟨100, .run 7, false, .spawned⟩ := rfl
  have hlists : Step spawnedRun none oneRun := Step.lists rfl hchild rfl
  have hkill : Step oneRun none { oneRun with loop := .killing 7 } := .kill 7 rfl rfl
  exact .step (.step (.step (.step (.init rfl) hexec) hspawns) hlists) hkill

theorem signals_own_children_sample :
    Step { oneRun with loop := .killing 7 } (some (100, .term))
      { oneRun with loop := .killed 7 100 } ∧
    Machine.Owns { oneRun with loop := .killing 7 } 100 := by
  have hstep : Step { oneRun with loop := .killing 7 } (some (100, .term))
      { oneRun with loop := .killed 7 100 } := .killSignals rfl rfl
  exact ⟨hstep, ((signals_own_children oneRun_run).1 100 .term _ hstep).1⟩

end QsBitwarden.Vault.Processes
