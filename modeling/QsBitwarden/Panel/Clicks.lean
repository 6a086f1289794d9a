import QsBitwarden.Panel.SshPrompts

/-!
# Panel — a click answers the request shown

* **`Details`** — what is drawn under an id is what the agent reported for it, or for the held
  request it was released from. **`Open`** — the agent has asked under the id, and has not withdrawn
  it since.
* **`Sound`** — both hold of everything in the slots and queues, and the ids are distinct.
* **`Calm`** — what a step must not meet: a Deny with both slots filled, a withdrawal that advances
  the wrong slot, and a release of a prompt that is no longer shown.
* **`clicks_answer_shown`** — in a run of calm steps a click names the request shown, and
  **`clicks_astray`** — three runs whose last step is not calm.
-/

namespace QsBitwarden.Panel

open Agent (CancelReason)

/-! ## What the agent has said -/

def Asked (h : List Step) (message : Message) : Prop :=
  ∃ t ∈ h, message ∈ t.event.announces

/-- The details of `message`, drawn under `requestId`. -/
def Details (h : List Step) (requestId : Nat) (message : Message) : Prop :=
  Asked h message ∧
    (requestId = message.requestId ∨
      ∃ t ∈ h, ∃ approval ∈ t.event.announces, approval.approves ∧
        sshAgentSameRequest message approval ∧ requestId = approval.requestId)

/-- A sign request that is released comes back as an approval and is not withdrawn by that. -/
def Event.withdraws (event : Event) (requestId : Nat) (message : Message) : Prop :=
  match event with
  | .requestCancelled cancelled reason =>
    cancelled = requestId ∧ (reason ≠ .released ∨ message.listing)
  | _ => False

instance (event : Event) (requestId : Nat) (message : Message) :
    Decidable (event.withdraws requestId message) := by
  unfold Event.withdraws; split <;> infer_instance

/-- Asked under this id, and not withdrawn since. -/
def Open (h : List Step) (requestId : Nat) (message : Message) : Prop :=
  Trace.Since (fun t => ¬ t.event.withdraws requestId message)
    (fun _ t => ∃ asked ∈ t.event.announces, asked.requestId = requestId) h

section

variable {h : List Step} {t : Step} {requestId : Nat} {message : Message}

instance : Decidable (Asked h message) := by unfold Asked; infer_instance

instance : Decidable (Details h requestId message) := by unfold Details; infer_instance

instance : Decidable (Open h requestId message) := by unfold Open; infer_instance

theorem Asked.cons (hasked : Asked h message) : Asked (t :: h) message := by
  obtain ⟨u, hu, hm⟩ := hasked
  exact ⟨u, List.mem_cons_of_mem t hu, hm⟩

theorem Details.cons (hd : Details h requestId message) : Details (t :: h) requestId message := by
  obtain ⟨hasked, hown | ⟨u, hu, hreleased⟩⟩ := hd
  · exact ⟨hasked.cons, Or.inl hown⟩
  · exact ⟨hasked.cons, Or.inr ⟨u, List.mem_cons_of_mem t hu, hreleased⟩⟩

/-- The id drawn is one the agent gave out. -/
theorem Details.announced (hd : Details h requestId message) :
    ∃ asked, Asked h asked ∧ asked.requestId = requestId := by
  obtain ⟨hasked, hown | ⟨u, hu, approval, happroval, -, -, hid⟩⟩ := hd
  · exact ⟨message, hasked, hown.symm⟩
  · exact ⟨approval, ⟨u, hu, happroval⟩, hid.symm⟩

end

/-- Ids are announced once, so an id has one message. -/
theorem asked_unique {window : Nat} {h : List Step} {s : SshPrompts}
    (run : (machine window).system.Run h s) {a b : Message} (ha : Asked h a) (hb : Asked h b)
    (hid : a.requestId = b.requestId) : a = b := by
  induction run with
  | init =>
    obtain ⟨t, ht, -⟩ := ha
    cases ht
  | step run hstep ih =>
    obtain ⟨-, hfresh, -⟩ := hstep
    obtain ⟨t, ht, hat⟩ := ha
    obtain ⟨u, hu, hbu⟩ := hb
    cases ht with
    | head =>
      cases hu with
      | head => exact Option.mem_unique hat hbu
      | tail _ hu => exact absurd hid.symm (hfresh a hat u hu b hbu)
    | tail _ ht =>
      cases hu with
      | head => exact absurd hid (hfresh b hbu t ht a hat)
      | tail _ hu => exact ih ⟨t, ht, hat⟩ ⟨u, hu, hbu⟩

/-! ## The slots, by id -/

namespace SshPrompts

variable (s : SshPrompts)

/-- Every id behind the prompt. -/
def behind : List Nat :=
  s.promptQueue.map (·.requestId) ++
    (s.unlock.toList.map (·.requestId) ++ s.unlockQueue.map (·.requestId))

/-- Every id in the slots and queues. -/
def ids : List Nat := s.prompt.toList.map (·.requestId) ++ s.behind

theorem advanceSshPrompt_ids : s.advanceSshPrompt.ids.Sublist s.behind := by
  unfold advanceSshPrompt
  cases hqueue : s.promptQueue with
  | nil => simp [dismissSshApproval, ids, behind]
  | cons next remaining => simp [showSshApproval, sshAgentPromptView, ids, behind, hqueue]

/-- The request in the unlock slot is the one that leaves. -/
theorem advanceSshUnlock_ids : s.advanceSshUnlock.ids.Sublist
    (s.prompt.toList.map (·.requestId) ++
      (s.promptQueue.map (·.requestId) ++ s.unlockQueue.map (·.requestId))) := by
  unfold advanceSshUnlock
  cases hqueue : s.unlockQueue with
  | nil => simp [dismissSshApproval, ids, behind]
  | cons next remaining => simp [ids, behind]

variable {s}

theorem adoptSshPrompt_eq_some {message : Message} {s' : SshPrompts}
    (hadopt : s.adoptSshPrompt message = some s') :
    ∃ p view, s.promoted = some p ∧ s.prompt = some view ∧ sshAgentSameRequest p.2 message ∧
      s' = { s with
        prompt := some { view with requestId := message.requestId }, promoted := none } := by
  unfold adoptSshPrompt at hadopt
  split at hadopt
  · next old raw view hpromoted hprompt =>
    split_ifs at hadopt with hsame
    exact ⟨(old, raw), view, hpromoted, hprompt, hsame, (Option.some.inj hadopt).symm⟩
  · cases hadopt

end SshPrompts

/-- A request waiting in a queue. -/
structure Waits (h : List Step) (message : Message) : Prop where
  asked : Asked h message
  isOpen : Open h message.requestId message

/-- What holds of the slots in a run of calm steps. A request that waits behind a prompt in the
unlock slot may be withdrawn there unnoticed, so it is known to be open only while it is shown. -/
structure Sound (h : List Step) (s : SshPrompts) : Prop where
  details : ∀ view ∈ s.prompt, Details h view.requestId view.message
  isOpen : ∀ view ∈ s.prompt, Open h view.requestId view.message
  signs : ∀ view ∈ s.prompt, view.message.listing = false
  queued : ∀ message ∈ s.promptQueue, Waits h message ∧ message.listing = false
  unlock : ∀ message ∈ s.unlock, Asked h message ∧
    (s.prompt = none → Open h message.requestId message)
  unlockQueued : ∀ message ∈ s.unlockQueue, Waits h message
  promoted : ∀ p ∈ s.promoted, Asked h p.2 ∧ p.2.requestId = p.1 ∧
    ∀ view ∈ s.prompt, view.requestId = view.message.requestId
  nodup : s.ids.Nodup

namespace Sound

variable {h : List Step} {t : Step} {s : SshPrompts}

variable {message : Message}

theorem new (window : Nat) : Sound [] (.new window) := by
  constructor <;> simp [SshPrompts.new, SshPrompts.ids, SshPrompts.behind]

/-- Every id in the slots was announced. -/
theorem announced (hs : Sound h s) {requestId : Nat} (hid : requestId ∈ s.ids) :
    ∃ asked, Asked h asked ∧ asked.requestId = requestId := by
  simp only [SshPrompts.ids, SshPrompts.behind, List.mem_append, List.mem_map,
    Option.mem_toList] at hid
  rcases hid with ⟨view, hv, rfl⟩ | ⟨message, hm, rfl⟩ | ⟨message, hm, rfl⟩ | ⟨message, hm, rfl⟩
  · exact (hs.details view hv).announced
  · exact ⟨message, (hs.queued message hm).1.asked, rfl⟩
  · exact ⟨message, (hs.unlock message hm).1, rfl⟩
  · exact ⟨message, (hs.unlockQueued message hm).asked, rfl⟩

/-! ## Time passes -/

/-- An event that withdraws nothing shown or queued. -/
theorem cons (hs : Sound h s)
    (hprompt : ∀ view ∈ s.prompt, ¬ t.event.withdraws view.requestId view.message)
    (hqueue : ∀ message ∈ s.promptQueue, ¬ t.event.withdraws message.requestId message)
    (hunlock : s.prompt = none → ∀ message ∈ s.unlock,
      ¬ t.event.withdraws message.requestId message)
    (hunlockQueue : ∀ message ∈ s.unlockQueue, ¬ t.event.withdraws message.requestId message) :
    Sound (t :: h) s where
  details view hv := (hs.details view hv).cons
  isOpen view hv := .keep (hprompt view hv) (hs.isOpen view hv)
  signs := hs.signs
  queued message hm := by
    obtain ⟨hwaits, hsigns⟩ := hs.queued message hm
    exact ⟨⟨hwaits.asked.cons, .keep (hqueue message hm) hwaits.isOpen⟩, hsigns⟩
  unlock message hm := by
    obtain ⟨hasked, hopen⟩ := hs.unlock message hm
    exact ⟨hasked.cons, fun hnone => .keep (hunlock hnone message hm) (hopen hnone)⟩
  unlockQueued message hm := by
    have hwaits := hs.unlockQueued message hm
    exact ⟨hwaits.asked.cons, .keep (hunlockQueue message hm) hwaits.isOpen⟩
  promoted p hp := by
    obtain ⟨hasked, hid, hown⟩ := hs.promoted p hp
    exact ⟨hasked.cons, hid, hown⟩
  nodup := hs.nodup

/-- An event that is no withdrawal. -/
theorem keep (hs : Sound h s) (ht : ∀ requestId message, ¬ t.event.withdraws requestId message) :
    Sound (t :: h) s :=
  hs.cons (fun _ _ => ht _ _) (fun _ _ => ht _ _) (fun _ _ _ => ht _ _) (fun _ _ => ht _ _)

/-! ## The slots change -/

theorem dismiss (h : List Step) (s : SshPrompts) : Sound h s.dismissSshApproval := by
  constructor <;> simp [SshPrompts.dismissSshApproval, SshPrompts.ids, SshPrompts.behind]

variable (hs : Sound h s)
include hs

/-- Requests leave the queues or the unlock slot. -/
theorem fewer {promptQueue unlockQueue : List Message} {unlock : Option Message}
    (hqueue : promptQueue.Sublist s.promptQueue) (hunlock : unlock.toList.Sublist s.unlock.toList)
    (hunlockQueue : unlockQueue.Sublist s.unlockQueue) :
    Sound h { s with promptQueue, unlock, unlockQueue } where
  details := hs.details
  isOpen := hs.isOpen
  signs := hs.signs
  queued message hm := hs.queued message (hqueue.subset hm)
  unlock message hm :=
    hs.unlock message (Option.mem_toList.mp (hunlock.subset (Option.mem_toList.mpr hm)))
  unlockQueued message hm := hs.unlockQueued message (hunlockQueue.subset hm)
  promoted := hs.promoted
  nodup := by
    refine hs.nodup.sublist (List.Sublist.append_left ?_ _)
    exact (hqueue.map _).append ((hunlock.map _).append (hunlockQueue.map _))

/-- A prompt is put up. -/
theorem put {view : View} {promoted : Option (Nat × Message)}
    (hdetails : Details h view.requestId view.message)
    (hopen : Open h view.requestId view.message) (hsigns : view.message.listing = false)
    (hfresh : view.requestId ∉ s.behind)
    (hpromoted : ∀ p ∈ promoted, Asked h p.2 ∧ p.2.requestId = p.1 ∧
      view.requestId = view.message.requestId) :
    Sound h { s with prompt := some view, promoted } where
  details view' hv := by
    cases hv
    exact hdetails
  isOpen view' hv := by
    cases hv
    exact hopen
  signs view' hv := by
    cases hv
    exact hsigns
  queued := hs.queued
  -- The unlock slot is covered now.
  unlock message' hm := ⟨(hs.unlock message' hm).1, fun hnone => by cases hnone⟩
  unlockQueued := hs.unlockQueued
  promoted p hp := by
    obtain ⟨hasked, hid, hown⟩ := hpromoted p hp
    refine ⟨hasked, hid, fun view' hv => ?_⟩
    cases hv
    exact hown
  nodup := List.nodup_cons.mpr ⟨hfresh, (List.nodup_append.mp hs.nodup).2.1⟩

variable (hwaits : Waits h message)
include hwaits

/-- A message is drawn. -/
theorem draw (hsigns : message.listing = false) (hfresh : message.requestId ∉ s.behind) :
    Sound h (s.showSshApproval message) := by
  refine hs.put ⟨hwaits.asked, Or.inl rfl⟩ hwaits.isOpen hsigns hfresh fun p hp => ?_
  obtain ⟨hasked, hid, -⟩ := hs.promoted p hp
  exact ⟨hasked, hid, rfl⟩

theorem putUnlock (hfresh : message.requestId ∉ s.ids) (hnone : s.unlock = none) :
    Sound h { s with unlock := some message } where
  details := hs.details
  isOpen := hs.isOpen
  signs := hs.signs
  queued := hs.queued
  unlock message' hm := by
    cases hm
    exact ⟨hwaits.asked, fun _ => hwaits.isOpen⟩
  unlockQueued := hs.unlockQueued
  promoted := hs.promoted
  nodup := by
    have hids := List.nodup_cons.mpr ⟨hfresh, hs.nodup⟩
    simp only [SshPrompts.ids, SshPrompts.behind, hnone, Option.toList_none, Option.toList_some,
      List.map_nil, List.nil_append, List.map_cons, List.cons_append, ← List.append_assoc]
      at hids ⊢
    exact (List.perm_middle.nodup_iff).mpr hids

theorem enqueuePrompt (hsigns : message.listing = false) (hfresh : message.requestId ∉ s.ids)
    (maxQueue : Nat) :
    Sound h { s with promptQueue := sshAgentEnqueuePrompt s.promptQueue message maxQueue } := by
  unfold sshAgentEnqueuePrompt
  split_ifs with hsame hfull
  · exact hs
  · exact hs
  · refine { hs with queued := ?_, nodup := ?_ }
    · intro other hother
      rcases List.mem_append.mp hother with hother | hother
      · exact hs.queued other hother
      · cases List.mem_singleton.mp hother
        exact ⟨hwaits, hsigns⟩
    · have hids := List.nodup_cons.mpr ⟨hfresh, hs.nodup⟩
      simp only [SshPrompts.ids, SshPrompts.behind, List.map_append, List.map_cons, List.map_nil,
        List.append_assoc, List.cons_append, List.nil_append] at hids ⊢
      rw [← List.append_assoc] at hids ⊢
      exact (List.perm_middle.nodup_iff).mpr hids

theorem enqueueUnlock (hfresh : message.requestId ∉ s.ids) (maxQueue : Nat) :
    Sound h { s with unlockQueue := sshAgentEnqueuePrompt s.unlockQueue message maxQueue } := by
  unfold sshAgentEnqueuePrompt
  split_ifs with hsame hfull
  · exact hs
  · exact hs
  · refine { hs with unlockQueued := ?_, nodup := ?_ }
    · intro other hother
      rcases List.mem_append.mp hother with hother | hother
      · exact hs.unlockQueued other hother
      · cases List.mem_singleton.mp hother
        exact hwaits
    · have hids := List.nodup_cons.mpr ⟨hfresh, hs.nodup⟩
      simp only [SshPrompts.ids, SshPrompts.behind, List.map_append, List.map_cons, List.map_nil,
        ← List.append_assoc] at hids ⊢
      exact ((List.perm_append_singleton _ _).nodup_iff).mpr hids

omit hwaits

theorem advancePrompt : Sound h s.advanceSshPrompt := by
  have hids := (List.nodup_append.mp hs.nodup).2.1
  unfold SshPrompts.advanceSshPrompt
  cases hqueue : s.promptQueue with
  | nil => exact dismiss h s
  | cons next remaining =>
    have hnext := hs.queued next (by simp [hqueue])
    rw [SshPrompts.behind, hqueue] at hids
    refine draw (hs.fewer (by simp [hqueue]) (.refl _) (.refl _)) hnext.1 hnext.2 ?_
    exact (List.nodup_cons.mp hids).1

theorem advanceUnlock : Sound h s.advanceSshUnlock := by
  unfold SshPrompts.advanceSshUnlock
  cases hqueue : s.unlockQueue with
  | nil => exact dismiss h s
  | cons next remaining =>
    have hnext := hs.unlockQueued next (by simp [hqueue])
    have hrest : Sound h { s with unlock := none, unlockQueue := remaining } :=
      hs.fewer (.refl _) (by simp) (by simp [hqueue])
    refine hrest.putUnlock hnext ?_ rfl
    have hids : (s.prompt.toList.map (·.requestId) ++ (s.promptQueue.map (·.requestId) ++
        next.requestId :: remaining.map (·.requestId))).Nodup := by
      refine hs.nodup.sublist (List.Sublist.append_left (List.Sublist.append_left ?_ _) _)
      simp [hqueue]
    rw [← List.append_assoc, List.perm_middle.nodup_iff] at hids
    simpa [SshPrompts.ids, SshPrompts.behind] using (List.nodup_cons.mp hids).1

/-- The unlock slot is shown when it is promoted, so its request is open. -/
theorem promote : Sound h s.promoteUnlockToApproval := by
  unfold SshPrompts.promoteUnlockToApproval
  cases hunlock : s.unlock with
  | none => exact hs
  | some raw =>
    dsimp only
    split_ifs with hstays
    · exact hs
    · obtain ⟨⟨-, hnone⟩, hsigns⟩ : (s.unlocked = true ∧ s.prompt = none) ∧ raw.listing = false := by
        simpa using hstays
      obtain ⟨hasked, hopen⟩ := hs.unlock raw hunlock
      have hfewer : Sound h { s with unlock := none, unlockQueue := [] } :=
        hs.fewer (.refl _) (by simp) (by simp)
      have hrest : Sound h { s with
          promoted := some (raw.requestId, raw), unlock := none, unlockQueue := [] } := by
        refine { hfewer with promoted := ?_ }
        rintro p ⟨⟩
        exact ⟨hasked, rfl, by simp [hnone]⟩
      refine hrest.draw ⟨hasked, hopen hnone⟩ hsigns ?_
      have hbehind := (List.nodup_append.mp hs.nodup).2.1
      rw [SshPrompts.behind, hunlock] at hbehind
      have hdisjoint := (List.nodup_append.mp hbehind).2.2
      intro hmem
      simp only [SshPrompts.behind, Option.toList_none, List.map_nil, List.append_nil] at hmem
      exact hdisjoint _ hmem raw.requestId (by simp) rfl

end Sound

/-! ## Steps -/

/-- The runs the code handles. A Deny does not find both slots filled; a request that is withdrawn
while its prompt is shown is followed by a queued prompt, or nothing waits for an unlock behind it;
and a release of the promoted request finds its prompt still shown. -/
def Calm (t : Step) : Prop :=
  match t.event with
  | .deny => t.before.prompt = none ∨ t.before.unlock = none
  | .requestCancelled requestId _ =>
    ∀ view ∈ t.before.prompt, view.requestId = requestId →
      t.before.promptQueue ≠ [] ∨ t.before.unlock = none ∨ t.before.unlockQueue = []
  | .request message _ =>
    message.approves → ∀ p ∈ t.before.promoted, ∀ view ∈ t.before.prompt,
      sshAgentSameRequest p.2 message → view.requestId = p.1
  | _ => True

instance (t : Step) : Decidable (Calm t) := by
  unfold Calm; split <;> infer_instance

namespace Sound

variable {window : Nat} {h : List Step} {s : SshPrompts}

variable {message : Message} {requestId : Nat} {reason : CancelReason}

/-- A new id is none of those in the slots. -/
theorem fresh (hs : Sound h s) {event : Event} (hmay : Announceable h event)
    (hm : message ∈ event.announces) : message.requestId ∉ s.ids := by
  intro hid
  obtain ⟨asked, ⟨t, ht, hasked⟩, heq⟩ := hs.announced hid
  exact hmay message hm t ht asked hasked heq

/-- A message asks for an approval. -/
theorem approvalRequired (run : (machine window).system.Run h s) (hs : Sound h s)
    {mayPrompt : Bool} (hmay : Announceable h (.request message mayPrompt))
    (happroves : message.approves) (hcalm : Calm ⟨s, .request message mayPrompt⟩) :
    Sound (⟨s, .request message mayPrompt⟩ :: h) (s.onApprovalRequired message mayPrompt).2 := by
  have hfresh := hs.fresh hmay rfl
  have hsigns : message.listing = false := by
    unfold Message.approves at happroves
    unfold Message.listing
    cases hasks : message.asks <;> simp_all
  set t : Step := ⟨s, .request message mayPrompt⟩ with ht
  have hs' : Sound (t :: h) s := hs.keep fun _ _ hw => hw
  have hasked : Asked (t :: h) message := ⟨t, List.mem_cons_self, rfl⟩
  have hopen (held : Message) : Open (t :: h) message.requestId held := .start ⟨message, rfl, rfl⟩
  have hbehind : message.requestId ∉ s.behind := fun hmem =>
    hfresh (List.mem_append_right _ hmem)
  unfold SshPrompts.onApprovalRequired
  by_cases hrefuse : (!mayPrompt) = true
  · rw [if_pos hrefuse]
    exact hs'
  · rw [if_neg hrefuse]
    cases hadopt : s.adoptSshPrompt message with
    | some s' =>
      obtain ⟨p, view, hpromoted, hview, hsame, rfl⟩ := SshPrompts.adoptSshPrompt_eq_some hadopt
      obtain ⟨hraw, hold, hown⟩ := hs.promoted p hpromoted
      -- The prompt still has the promoted id, and an id has one message: so the id of the release
      -- is the id of what is drawn.
      have hshown : view.requestId = p.1 := hcalm happroves p hpromoted view hview hsame
      have hmessage : view.message = p.2 := by
        refine asked_unique run (hs.details view hview).1 hraw ?_
        rw [hold, ← hshown, hown view hview]
      refine hs'.put ⟨(hs'.details view hview).1, Or.inr ?_⟩ (hopen _) (hs.signs view hview) hbehind
        nofun
      exact ⟨t, List.mem_cons_self, message, rfl, happroves, hmessage ▸ hsame, rfl⟩
    | none =>
      dsimp only
      split_ifs with hprompt
      · exact hs'.enqueuePrompt ⟨hasked, hopen message⟩ hsigns hfresh 4
      · exact hs'.draw ⟨hasked, hopen message⟩ hsigns hbehind

variable (hs : Sound h s)
include hs

/-- A message asks for an unlock. -/
theorem unlockRequired {mayPrompt : Bool} (hmay : Announceable h (.request message mayPrompt)) :
    Sound (⟨s, .request message mayPrompt⟩ :: h) (s.onUnlockRequired message mayPrompt).2 := by
  have hfresh := hs.fresh hmay rfl
  set t : Step := ⟨s, .request message mayPrompt⟩ with ht
  have hs' : Sound (t :: h) s := hs.keep fun _ _ hw => hw
  have hwaits : Waits (t :: h) message :=
    ⟨⟨t, List.mem_cons_self, rfl⟩, .start ⟨message, rfl, rfl⟩⟩
  unfold SshPrompts.onUnlockRequired
  split_ifs with hrefuse hunlock
  · exact hs'
  · exact hs'.enqueueUnlock hwaits hfresh 4
  · exact hs'.putUnlock hwaits hfresh (by simpa using hunlock)

/-! ## Withdrawals -/

/-- Nothing that is shown or queued any more has the withdrawn id. -/
theorem withdrawn {before : SshPrompts} (hid : requestId ∉ s.ids) :
    Sound (⟨before, .requestCancelled requestId reason⟩ :: h) s := by
  have hother {id : Nat} {message : Message} (hmem : id ∈ s.ids) :
      ¬ (Event.requestCancelled requestId reason).withdraws id message := by
    rintro ⟨rfl, -⟩
    exact hid hmem
  refine hs.cons (fun view hv => hother ?_) (fun message hm => hother ?_)
    (fun _ message hm => hother ?_) (fun message hm => hother ?_)
  all_goals
    simp only [SshPrompts.ids, SshPrompts.behind, List.mem_append, List.mem_map, Option.mem_toList]
  · exact Or.inl ⟨view, hv, rfl⟩
  · exact Or.inr (Or.inl ⟨message, hm, rfl⟩)
  · exact Or.inr (Or.inr (Or.inl ⟨message, hm, rfl⟩))
  · exact Or.inr (Or.inr (Or.inr ⟨message, hm, rfl⟩))

/-- The id of a prompt is in no other place. -/
theorem prompt_notMem {view : View} (hview : s.prompt = some view) : view.requestId ∉ s.behind := by
  have hids := hs.nodup
  rw [SshPrompts.ids, hview] at hids
  exact (List.nodup_cons.mp hids).1

/-- Nor is the id of the request in the unlock slot. -/
theorem unlock_notMem {raw : Message} (hraw : s.unlock = some raw) :
    raw.requestId ∉ s.promptQueue.map (·.requestId) ++ s.unlockQueue.map (·.requestId) := by
  have hbehind := (List.nodup_append.mp hs.nodup).2.1
  rw [SshPrompts.behind, hraw] at hbehind
  exact (List.nodup_cons.mp (List.perm_middle.nodup_iff.mp hbehind)).1

/-- Where the request shown is, and which ids are not its own. -/
theorem shown_cases (hlive : s.shown.any fun live => live.requestId = requestId) :
    (∃ view, s.prompt = some view ∧ view.requestId = requestId ∧ requestId ∉ s.behind) ∨
      (∃ raw, s.prompt = none ∧ s.unlock = some raw ∧ raw.requestId = requestId ∧
        requestId ∉ s.promptQueue.map (·.requestId) ++ s.unlockQueue.map (·.requestId)) := by
  unfold SshPrompts.shown SshPrompts.sshUnlockRequest at hlive
  cases hprompt : s.prompt with
  | some view =>
    rw [hprompt] at hlive
    have hid : view.requestId = requestId := by simpa using hlive
    exact Or.inl ⟨view, rfl, hid, hid ▸ hs.prompt_notMem hprompt⟩
  | none =>
    cases hunlock : s.unlock with
    | none => simp [hprompt, hunlock] at hlive
    | some raw =>
      rw [hprompt, hunlock] at hlive
      have hid : raw.requestId = requestId := by simpa [sshAgentPromptView] using hlive
      exact Or.inr ⟨raw, rfl, rfl, hid, hid ▸ hs.unlock_notMem hunlock⟩

/-- A released sign request stays, and is open still. -/
theorem released (hlive : s.shown.any fun live => live.requestId = requestId)
    (hsigns : ∀ raw ∈ s.unlock, raw.listing = false) :
    Sound (⟨s, .requestCancelled requestId .released⟩ :: h) s := by
  have hkept {id : Nat} {message : Message} (hno : message.listing = false) :
      ¬ (Event.requestCancelled requestId .released).withdraws id message := by
    simp [Event.withdraws, hno]
  refine hs.cons (fun view hv => hkept (hs.signs view hv))
    (fun message hm => hkept (hs.queued message hm).2) (fun _ raw hr => hkept (hsigns raw hr)) ?_
  -- A listing may wait in the queue, but the request shown is not in it.
  rintro message hm ⟨rfl, -⟩
  have hmem := List.mem_map_of_mem (f := (·.requestId)) hm
  rcases hs.shown_cases hlive with ⟨-, -, -, hnot⟩ | ⟨-, -, -, -, hnot⟩
  · exact hnot (List.mem_append_right _ (List.mem_append_right _ hmem))
  · exact hnot (List.mem_append_right _ hmem)

/-- A request that is not shown leaves the queues. -/
theorem dequeued (hlive : ¬ s.shown.any fun live => live.requestId = requestId) :
    Sound (⟨s, .requestCancelled requestId reason⟩ :: h)
      { s with
        promptQueue := sshAgentRemovePrompt s.promptQueue requestId
        unlockQueue := sshAgentRemovePrompt s.unlockQueue requestId } := by
  unfold sshAgentRemovePrompt
  have hrest := hs.fewer (List.filter_sublist (p := fun item => item.requestId ≠ requestId))
    (.refl _) (List.filter_sublist (p := fun item => item.requestId ≠ requestId))
  refine hrest.cons ?_ ?_ ?_ ?_
  · rintro view hv ⟨rfl, -⟩
    have hprompt : s.prompt = some view := hv
    simp [SshPrompts.shown, hprompt] at hlive
  · rintro message hm ⟨rfl, -⟩
    simp at hm
  · rintro hnone raw hr ⟨rfl, -⟩
    have hprompt : s.prompt = none := hnone
    have hunlock : s.unlock = some raw := hr
    simp [SshPrompts.shown, SshPrompts.sshUnlockRequest, sshAgentPromptView, hprompt, hunlock]
      at hlive
  · rintro message hm ⟨rfl, -⟩
    simp at hm

theorem requestCancelled (hcalm : Calm ⟨s, .requestCancelled requestId reason⟩) :
    Sound (⟨s, .requestCancelled requestId reason⟩ :: h)
      (s.onRequestCancelled requestId reason) := by
  unfold SshPrompts.onRequestCancelled
  split_ifs with hlive hreleased hprompt hunlock
  · obtain ⟨rfl, hany⟩ : reason = .released ∧ s.unlock.any (·.listing) = false := by
      simpa using hreleased
    refine hs.released hlive fun raw hraw => ?_
    simpa [show s.unlock = some raw from hraw] using hany
  · rcases hs.shown_cases hlive with ⟨view, hview, rfl, hnot⟩ | ⟨raw, hnone, -⟩
    · exact hs.advancePrompt.withdrawn fun hmem => hnot (s.advanceSshPrompt_ids.subset hmem)
    · simp [hnone] at hprompt
  · rcases hs.shown_cases hlive with ⟨view, hview, hid, -⟩ | ⟨raw, hnone, -, -, hnot⟩
    · -- Not a calm withdrawal: the unlock slot would advance behind the prompt.
      have hslots : s.promptQueue ≠ [] ∨ s.unlock = none ∨ s.unlockQueue = [] :=
        hcalm view hview hid
      rcases hslots with hqueue | hnone | hempty
      · simp [hview, hqueue] at hprompt
      · simp [hnone] at hunlock
      · simp [hempty] at hunlock
    · refine hs.advanceUnlock.withdrawn fun hmem => hnot ?_
      simpa [hnone] using s.advanceSshUnlock_ids.subset hmem
  · exact (dismiss h s).withdrawn (by simp [SshPrompts.dismissSshApproval, SshPrompts.ids,
      SshPrompts.behind])
  · exact hs.dequeued hlive

omit hs

/-! ## Runs -/

theorem step (run : (machine window).system.Run h s) (hs : Sound h s) {event : Event}
    (hmay : Announceable h event) (hcalm : Calm ⟨s, event⟩) :
    Sound (⟨s, event⟩ :: h) (s.step event).2 := by
  cases event with
  | request message mayPrompt =>
    cases hasks : message.asks with
    | approval keyId =>
      simp only [SshPrompts.step, hasks]
      exact hs.approvalRequired run hmay (by simp [Message.approves, hasks]) hcalm
    | unlock reason =>
      simp only [SshPrompts.step, hasks]
      exact hs.unlockRequired hmay
  | requestCancelled requestId reason => exact hs.requestCancelled hcalm
  | status unlocked =>
    have hs' : Sound (⟨s, .status unlocked⟩ :: h) s := hs.keep fun _ _ hw => hw
    unfold SshPrompts.step
    dsimp only
    split_ifs with hsame
    · exact hs'
    · exact promote { hs' with }
  | approve grantSeconds =>
    have hs' : Sound (⟨s, .approve grantSeconds⟩ :: h) s := hs.keep fun _ _ hw => hw
    unfold SshPrompts.step SshPrompts.approveSshRequest
    cases s.prompt with
    | none => exact hs'
    | some view => exact hs'.advancePrompt
  | deny =>
    have hs' : Sound (⟨s, .deny⟩ :: h) s := hs.keep fun _ _ hw => hw
    unfold SshPrompts.step SshPrompts.denySshRequest
    cases s.unlock with
    | some raw => exact hs'.advanceUnlock
    | none =>
      cases s.prompt with
      | some view => exact hs'.advancePrompt
      | none => exact dismiss _ s
  | denyAll => exact dismiss _ s
  | expire =>
    unfold SshPrompts.step SshPrompts.expireSshRequest
    dsimp only
    split_ifs with hnone
    · exact hs.keep fun _ _ hw => hw
    · exact dismiss _ s
  | approvalWindow seconds =>
    have hs' : Sound (⟨s, .approvalWindow seconds⟩ :: h) s := hs.keep fun _ _ hw => hw
    exact { hs' with }

end Sound

theorem run_sound {window : Nat} {h : List Step} {s : SshPrompts}
    (run : (machine window).system.Run h s) (hcalm : ∀ t ∈ h, Calm t) : Sound h s := by
  refine Trace.Machine.invariant (I := fun h s => (∀ t ∈ h, Calm t) → Sound h s)
    (fun _ => .new window) ?_ run hcalm
  intro h s event run ih hmay hcalm
  obtain ⟨ht, hh⟩ := List.forall_mem_cons.mp hcalm
  exact (ih hh).step run hmay ht

/-! ## Clicks -/

/-- A click on Approve or Deny. -/
def Event.isClick : Event → Bool
  | .approve _ | .deny => true
  | _ => false

/-- With at most one slot filled, a click names the request shown. -/
theorem click_names_shown {s : SshPrompts} {event : Event} (hclick : event.isClick)
    (hcalm : Calm ⟨s, event⟩) {line : Line} (hline : line ∈ (s.step event).1) :
    ∃ view, s.shown = some view ∧ line.requestId = view.requestId := by
  cases event with
  | approve grantSeconds =>
    cases hprompt : s.prompt with
    | none => simp [SshPrompts.step, SshPrompts.approveSshRequest, hprompt] at hline
    | some view =>
      have hline : line = sshAgentApproveLine view.requestId grantSeconds := by
        simpa [SshPrompts.step, SshPrompts.approveSshRequest, hprompt] using hline
      exact ⟨view, by simp [SshPrompts.shown, hprompt], by rw [hline]; rfl⟩
  | deny =>
    cases hunlock : s.unlock with
    | some raw =>
      have hline : line = .unlockCancelled raw.requestId := by
        simpa [SshPrompts.step, SshPrompts.denySshRequest, hunlock] using hline
      have hprompt : s.prompt = none := by
        rcases hcalm with hnone | hnone
        · exact hnone
        · simp [hunlock] at hnone
      refine ⟨sshAgentPromptView raw 0, ?_, by rw [hline]; rfl⟩
      simp [SshPrompts.shown, SshPrompts.sshUnlockRequest, hprompt, hunlock]
    | none =>
      cases hprompt : s.prompt with
      | none => simp [SshPrompts.step, SshPrompts.denySshRequest, hunlock, hprompt] at hline
      | some view =>
        have hline : line = .deny view.requestId := by
          simpa [SshPrompts.step, SshPrompts.denySshRequest, hunlock, hprompt] using hline
        exact ⟨view, by simp [SshPrompts.shown, hprompt], by rw [hline]; rfl⟩
  | _ => cases hclick

/-- **A click answers the request shown.** In a run of calm steps, what is on screen is what the
agent reported for its id, or for the held request it was released from; the agent has not withdrawn
it; and a click on Approve or Deny names its id. -/
theorem clicks_answer_shown {window : Nat} {h : List Step} {s : SshPrompts}
    (run : (machine window).system.Run h s) (hcalm : ∀ t ∈ h, Calm t) :
    (∀ view ∈ s.shown, Details h view.requestId view.message ∧
      Open h view.requestId view.message) ∧
    ∀ event : Event, event.isClick → Calm ⟨s, event⟩ → ∀ line ∈ (s.step event).1,
      ∃ view, s.shown = some view ∧ line.requestId = view.requestId := by
  have hs := run_sound run hcalm
  refine ⟨fun view hview => ?_, fun event hclick hstep line hline =>
    click_names_shown hclick hstep hline⟩
  unfold SshPrompts.shown SshPrompts.sshUnlockRequest at hview
  cases hprompt : s.prompt with
  | some shown =>
    rw [hprompt] at hview
    obtain rfl : shown = view := Option.some.inj hview
    exact ⟨hs.details shown hprompt, hs.isOpen shown hprompt⟩
  | none =>
    rw [hprompt, Option.none_or] at hview
    obtain ⟨raw, hraw, rfl⟩ := Option.map_eq_some_iff.mp hview
    obtain ⟨hasked, hopen⟩ := hs.unlock raw hraw
    exact ⟨⟨hasked, Or.inl rfl⟩, hopen hprompt⟩

/-! ### Runs on fixed requests -/

def sampleRequest (requestId pid : Nat) (asks : Asks) : Message where
  asks
  prompt :=
    { requestId, pid, keyName := "work", fingerprint := "SHA256:a", processPath := "/usr/bin/ssh"
      operation := "ssh-userauth", operationDetail := "", hostKey := "", forwarded := false
      grantOffered := false }

/-- A held request is promoted at the unlock, and its release is adopted. -/
def adoptedEvents : List Event :=
  [.request (sampleRequest 2 10 (.approval "k")) true, .status true,
    .request (sampleRequest 1 10 (.unlock .sign)) true]

theorem clicks_answer_shown_adopted :
    let run := (machine 0).replay adoptedEvents
    (machine 0).system.Run run.1 run.2 ∧ (∀ t ∈ run.1, Calm t) ∧ Calm ⟨run.2, .approve 0⟩ ∧
      (run.2.step (.approve 0)).1 = [.approve 2 0] ∧
      ∃ view, run.2.shown = some view ∧ view.requestId = 2 ∧ Details run.1 2 view.message ∧
        Open run.1 2 view.message := by
  intro run
  have hplay : (machine 0).Playable adoptedEvents := by decide +kernel
  have hsteps : (∀ t ∈ run.1, Calm t) ∧ Calm ⟨run.2, .approve 0⟩ ∧
      (run.2.step (.approve 0)).1 = [.approve 2 0] := by decide +kernel
  obtain ⟨hcalm, hclick, hlines⟩ := hsteps
  have hrun := (machine 0).replay_run hplay
  obtain ⟨hshown, hclicks⟩ := clicks_answer_shown hrun hcalm
  obtain ⟨view, hview, hid⟩ := hclicks (.approve 0) rfl hclick (.approve 2 0) (by simp [run, hlines])
  have hid : view.requestId = 2 := hid.symm
  refine ⟨hrun, hcalm, hclick, hlines, view, hview, hid, ?_⟩
  rw [← hid]
  exact hshown view hview

/-- A request is promoted, and another one is held while the keys load. -/
def hiddenEvents : List Event :=
  [.request (sampleRequest 2 20 (.unlock .sign)) true, .status true,
    .request (sampleRequest 1 10 (.unlock .sign)) true]

/-- Two are held behind the promoted one, which is then withdrawn. -/
def withdrawnEvents : List Event :=
  [.requestCancelled 1 .withdrawn, .request (sampleRequest 3 30 (.unlock .sign)) true,
    .request (sampleRequest 2 20 (.unlock .sign)) true, .status true,
    .request (sampleRequest 1 10 (.unlock .sign)) true]

/-- The promoted request is answered before its release arrives, with another one queued. -/
def lateReleaseEvents : List Event :=
  [.request (sampleRequest 3 10 (.approval "k")) true, .approve 0,
    .request (sampleRequest 2 20 (.approval "k")) true, .status true,
    .request (sampleRequest 1 10 (.unlock .sign)) true]

/-- Without the condition: a Deny cancels the request behind the one shown, a withdrawn request
stays on screen, and one request's details are drawn under the id of another. -/
theorem clicks_astray :
    (∃ h s view, (machine 0).system.Run h s ∧ s.shown = some view ∧ view.requestId = 1 ∧
      (s.step .deny).1 = [.unlockCancelled 2]) ∧
    (∃ h s view, (machine 0).system.Run h s ∧ s.shown = some view ∧
      ¬ Open h view.requestId view.message) ∧
    (∃ h s view, (machine 0).system.Run h s ∧ s.shown = some view ∧
      ¬ Details h view.requestId view.message ∧ (s.step (.approve 0)).1 = [.approve 3 0] ∧
      view.message.requestId = 2) := by
  have hplay : (machine 0).Playable hiddenEvents ∧ (machine 0).Playable withdrawnEvents ∧
      (machine 0).Playable lateReleaseEvents := by decide +kernel
  obtain ⟨hhidden, hwithdrawn, hlate⟩ := hplay
  let promoted : View := ⟨1, sampleRequest 1 10 (.unlock .sign), 0⟩
  refine ⟨⟨_, _, promoted, (machine 0).replay_run hhidden, ?_⟩,
    ⟨_, _, promoted, (machine 0).replay_run hwithdrawn, ?_⟩,
    ⟨_, _, ⟨3, sampleRequest 2 20 (.approval "k"), 0⟩, (machine 0).replay_run hlate, ?_⟩⟩
  · decide +kernel
  · decide +kernel
  · decide +kernel

end QsBitwarden.Panel
