import Wrongthink.Atomicity.Linearizable
import Wrongthink.Concurrent.Mimicry
import Wrongthink.Live.Listening

/-!
# `channelMap` is a cache

A send looks its channel up in `channelMap` first and asks the database only for a channel that it
does not find. So what is in the map decides which actions a handler performs, and which of them
can be lost. It decides nothing else: whatever replies can be given and whatever rows can be stored
with one map, they can with any other (`mayCome_iff`). A server may be stopped and started again
without anybody noticing who does not listen.

The handler that has the longer way goes it all at once, when the other has come to the point where
their ways meet (`mimicked_sendOne`). If the other has lost its lookup, it has to lose a statement
too; there is always the insert for that.
-/

namespace Wrongthink

open Concurrent WrongthinkServiceImpl

variable {b : Backend} {lossy : Prop}

theorem World.Explains.of_db_eq {w v v' : World b} (h : v.Explains w) (hdb : v'.db = v.db) :
    v'.Explains w := by
  rw [World.Explains, hdb]
  exact h

namespace Op

/-! ## Steps with one map and with another -/

/-- The steps of a server that loses statements only if it is `lossy`. -/
def StepIf (lossy : Prop) : Semantics Op Op.Result Exn (World b) := fun o w r w' ↦
  Op.Step o w r w' ∧ (r = .error .connectionFailure → lossy)

/-- The actions whose answers do not depend on `channelMap`. -/
def Blind : Op → Prop
  | count _ | wake _ _ => False
  | _ => True

variable {o : Op} {w w' v : World b} {r : Except Exn o.Result}

theorem stepIf_exec (lossy : Prop) (o : Op) (w : World b) :
    StepIf lossy o w (o.exec w).1 (o.exec w).2 :=
  ⟨step_exec o w, fun hr ↦ absurd hr (o.exec_ne_lost w)⟩

theorem stepIf_lost (hlossy : lossy) (ho : o.store = true) (w : World b) :
    StepIf lossy o w (.error .connectionFailure) w := by
  have h := Step.lost w.still o w ho
  have hw : w.drift w.still = w := by
    simp [World.drift, World.still, Database.skip, Tables.skip]
  rw [hw] at h
  exact ⟨h, fun _ ↦ hlossy⟩

theorem Blind.exec_eq (ho : o.Blind) (hdb : v.db = w.db) (hnow : v.now = w.now) :
    (o.exec v).1 = (o.exec w).1 ∧ (o.exec v).2.db = (o.exec w).2.db := by
  cases o with
  | count id => exact ho.elim
  | wake id l => exact ho.elim
  | sql q =>
    dsimp only [exec]
    rw [hdb, hnow]
    exact ⟨rfl, rfl⟩
  | time =>
    dsimp only [exec]
    rw [hnow]
    exact ⟨rfl, hdb⟩
  | _ => exact ⟨rfl, hdb⟩

theorem Blind.stepIf (ho : o.Blind) (hv : v.Explains w) (h : StepIf lossy o w r w') :
    ∃ v', StepIf lossy o v r v' ∧ v'.Explains w' := by
  obtain ⟨h, hlossy⟩ := h
  cases h with
  | exec d _ _ =>
    obtain ⟨d', hdb, hnow⟩ := (hv.drift d).exists_drift d.now
    obtain ⟨hr, hdb'⟩ := ho.exec_eq hdb hnow
    refine ⟨(o.exec (v.drift d')).2, ⟨?_, hlossy⟩, .of_db hdb'⟩
    rw [← hr]
    exact .exec d' o v
  | lost d _ _ hstore =>
    obtain ⟨d', hdb, _⟩ := (hv.drift d).exists_drift d.now
    exact ⟨v.drift d', ⟨.lost d' o v hstore, hlossy⟩, .of_db hdb⟩

end Op

/-! ## Programs with one map and with another -/

/-- With any other map, `q` may do what `p` does. -/
abbrev Mimicked {α : Type} (b : Backend) (lossy : Prop) (p q : Routine α) : Prop :=
  p.MimickedBy (Op.StepIf (b := b) lossy) (fun w v ↦ v.Explains w) q

theorem mimicked_of_blind {α : Type} {p : Routine α} (hp : p.Only Op.Blind) :
    Mimicked b lossy p p :=
  .of_only (fun _ ho _ _ _ _ hv h ↦ ho.stepIf hv h) hp

section Send

/-- What is left of `sendOne` when the channel has its entry. -/
def keep (msg : WrongthinkMessage) : Routine Unit := do
  appendMessage msg.channelid msg
  sql (.insertMessage msg.userid msg.channelid msg.threadid msg.threadchild msg.text)

theorem keep_blind (msg : WrongthinkMessage) : (keep msg).Only Op.Blind := by
  simp [keep, appendMessage, Prog.bind_assoc, Op.Blind]

/-- Whatever is in the map, a channel can be given its entry. -/
theorem reaches_cacheChannel (lossy : Prop) (channelid : ℤ) (v : World b) :
    ∃ v', (cacheChannel channelid).Reaches (Op.StepIf lossy) v (.done ()) v' ∧ v'.db = v.db := by
  have hcount : Op.StepIf lossy (.count channelid) v
      (.ok (if (v.channelMap channelid).isSome then 1 else 0)) v := Op.stepIf_exec lossy _ v
  cases hmap : (v.channelMap channelid).isSome with
  | true =>
    rw [hmap] at hcount
    exact ⟨v, .perform_bind hcount (.refl _ _), rfl⟩
  | false =>
    rw [hmap] at hcount
    have hselect := Op.stepIf_exec lossy (.sql (.selectChannelName channelid)) v
    have hemplace (name : String) : (perform (.emplace channelid name)).Reaches (Op.StepIf lossy) v
        (.done ()) (v.insertNew channelid (.new channelid name)) :=
      .act (Op.stepIf_exec _ _ _) (.refl _ _)
    exact ⟨_, .perform_bind hcount (.perform_bind hselect (hemplace _)), rfl⟩

theorem reaches_keep (lossy : Prop) (msg : WrongthinkMessage) (v : World b) :
    ∃ v', (sendOne msg).Reaches (Op.StepIf lossy) v (keep msg) v' ∧ v'.db = v.db := by
  obtain ⟨v', h, hdb⟩ := reaches_cacheChannel lossy msg.channelid v
  exact ⟨v', h.bind _, hdb⟩

theorem reaches_lost (hlossy : lossy) (msg : WrongthinkMessage) (v : World b) :
    ∃ v', (sendOne msg).Reaches (Op.StepIf lossy) v (.raise .connectionFailure) v' ∧
      v'.db = v.db := by
  obtain ⟨v', h, hdb⟩ := reaches_keep lossy msg v
  refine ⟨((Op.notifyAll msg.channelid).exec ((Op.push msg.channelid msg).exec
    ((Op.index msg.channelid).exec v').2).2).2, h.trans ?_, hdb⟩
  rw [keep, appendMessage, Prog.bind_assoc]
  refine .perform_bind (Op.stepIf_exec _ _ _) ?_
  rw [Prog.bind_assoc]
  exact .perform_bind (Op.stepIf_exec _ _ _) (.perform_bind (Op.stepIf_exec _ _ _)
    (.act (Op.stepIf_lost hlossy rfl _) (.refl _ _)))

/-- When the one has come to its entry, the other goes there at once. -/
theorem exists_meet {w v w' : World b} {o : Op} {r : Except Exn o.Result} (msg : WrongthinkMessage)
    (htarget : o.target = none) (hv : v.Explains w) (h : Op.StepIf lossy o w r w') :
    ∃ v', (sendOne msg).Reaches (Op.StepIf lossy) v (keep msg) v' ∧ v'.Explains w' ∧
      Mimicked b lossy (keep msg) (keep msg) := by
  obtain ⟨v', hreaches, hdb⟩ := reaches_keep lossy msg v
  exact ⟨v', hreaches, (h.1.explains htarget hv).of_db_eq hdb, mimicked_of_blind (keep_blind msg)⟩

theorem mimicked_emplace (msg : WrongthinkMessage) (name : String) :
    Mimicked b lossy (perform (.emplace msg.channelid name) >>= fun _ ↦ keep msg)
      (sendOne msg) := by
  rw [Prog.perform_bind]
  intro w v r w' hv h
  obtain ⟨x, rfl⟩ := h.1.ok_of_not_store rfl
  obtain ⟨v', hmeet⟩ := exists_meet msg rfl hv h
  exact ⟨_, v', hmeet⟩

theorem mimicked_select (msg : WrongthinkMessage) :
    Mimicked b lossy (sql (.selectChannelName msg.channelid) >>= fun name ↦
      perform (.emplace msg.channelid (name.getD "")) >>= fun _ ↦ keep msg) (sendOne msg) := by
  refine .wait (fun w v name w' hv h ↦ h.1.explains rfl hv) (fun name ↦ mimicked_emplace msg _)
    fun w v e w' hv h ↦ ?_
  obtain rfl : e = .connectionFailure := h.1.error_eq fun _ ↦ ⟨_, rfl⟩
  obtain ⟨v', hreaches, hdb⟩ := reaches_lost (h.2 rfl) msg v
  exact ⟨v', hreaches, (h.1.explains rfl hv).of_db_eq hdb⟩

/-- **One message.** The two may differ in whether they find the channel in the map. -/
theorem mimicked_sendOne (msg : WrongthinkMessage) :
    Mimicked b lossy (sendOne msg) (sendOne msg) := by
  have heq : sendOne msg = perform (.count msg.channelid) >>= fun n ↦
      (if n ≠ 1 then sql (.selectChannelName msg.channelid) >>= fun name ↦
        perform (.emplace msg.channelid (name.getD "")) else pure ()) >>= fun _ ↦ keep msg :=
    Prog.bind_assoc _ _ _
  nth_rewrite 1 [heq]
  rw [Prog.perform_bind]
  intro w v r w' hv h
  obtain ⟨n, rfl⟩ := h.1.ok_of_not_store rfl
  dsimp only
  split
  · refine ⟨_, v, .refl _ _, h.1.explains rfl hv, ?_⟩
    rw [Prog.bind_assoc]
    exact mimicked_select msg
  · obtain ⟨v', hmeet⟩ := exists_meet msg rfl hv h
    exact ⟨_, v', hmeet⟩

theorem mimicked_sendLoop (reader : List WrongthinkMessage) :
    Mimicked b lossy (sendLoop reader) (sendLoop reader) := by
  induction reader with
  | nil => rfl
  | cons msg reader ih =>
    rw [sendLoop_cons]
    exact (mimicked_sendOne msg).bind fun _ ↦ ih

end Send

/-- **A handler that does not listen** may do with one map what it may do with another. -/
theorem mimicked_handle {r : Request} (hr : r.listens = none) :
    Mimicked b lossy r.handle r.handle := by
  cases hchannel : r.onChannel with
  | false =>
    refine mimicked_of_blind ((r.handle_aside hchannel).mono fun o ho ↦ ?_)
    cases o with
    | count id | wake id l => cases ho.2
    | _ => trivial
  | true =>
    have htarget : r.target = some .message := by
      cases r with
      | SendWrongthinkMessageWeb msg | SendWrongthinkMessage reader => rfl
      | ListenWrongthinkMessages channelid l turns => cases hr
      | _ => cases hchannel
    rw [Request.handle_of_target_message htarget]
    have hbody : Mimicked b lossy (do perform .session; sendLoop r.sends)
        (do perform .session; sendLoop r.sends) :=
      .perform_bind (fun _ _ _ _ hv h ↦ Op.Blind.stepIf trivial hv h)
        fun _ ↦ mimicked_sendLoop r.sends
    have hcaught : Mimicked b lossy (orInternal () (do perform .session; sendLoop r.sends))
        (orInternal () (do perform .session; sendLoop r.sends)) := hbody.tryCatch fun _ ↦ rfl
    exact hcaught.bind fun _ ↦ rfl

theorem handle_reads {r : Request} (hr : r.listens ≠ none) :
    r.handle.Only fun o ↦ o.target = none := by
  have htarget : r.target = none := by
    cases r with
    | ListenWrongthinkMessages channelid l turns => rfl
    | _ => exact absurd rfl hr
  have honly := r.handle_only
  rw [htarget] at honly
  exact honly.mono fun _ ho ↦ ho.elim id id

/-! ## What may come of the calls -/

section Calls

variable {ι : Type} [DecidableEq ι] {calls : ι → Request} {replies : ι → Option Reply}
  {rows : (T : Table) → List T.Row} {w v : World b}

/-- From `w`, it may come to these replies, with these rows stored. -/
def MayCome (lossy : Prop) (calls : ι → Request) (w : World b) (replies : ι → Option Reply)
    (rows : (T : Table) → List T.Row) : Prop :=
  ∃ (l : List (ι × Action b)) (c' : Pool ι Op Op.Result Exn Reply (World b)),
    Pool.Steps (Op.StepIf lossy) ⟨w, fun i ↦ (calls i).handle⟩ l c' ∧
      (∀ i reply, replies i = some reply → c'.thread i = .done reply) ∧
        ∀ T, c'.state.db.rows T = rows T

theorem MayCome.of_db (hdb : v.db = w.db)
    (hreplies : ∀ i, (calls i).listens ≠ none → replies i = none)
    (h : MayCome lossy calls w replies rows) : MayCome lossy calls v replies rows := by
  obtain ⟨l, c', hsteps, hdone, hrows⟩ := h
  have hmimicked : Pool.MimickedBy (Op.StepIf lossy) (fun w v : World b ↦ v.Explains w)
      (fun o ↦ o.target = none) (fun i ↦ (calls i).listens.isNone)
      ⟨w, fun i ↦ (calls i).handle⟩ ⟨v, fun i ↦ (calls i).handle⟩ := by
    refine ⟨.of_db hdb, fun i hi ↦ mimicked_handle (Option.isNone_iff_eq_none.mp hi), fun i hi ↦ ?_⟩
    refine handle_reads fun hnone ↦ ?_
    rw [hnone] at hi
    cases hi
  obtain ⟨m, d', hsteps', hmimicked'⟩ :=
    hmimicked.steps (fun _ ho _ _ _ _ hv h ↦ h.1.explains ho hv) hsteps
  refine ⟨m, d', hsteps', fun i reply hi ↦ ?_, fun T ↦ ?_⟩
  · have hvisible : (calls i).listens.isNone = true := by
      rw [Option.isNone_iff_eq_none]
      by_contra hlistens
      rw [hreplies i hlistens] at hi
      cases hi
    have hthread := hmimicked'.thread i hvisible
    rw [hdone i reply hi] at hthread
    exact hthread
  · obtain ⟨gaps, hgaps⟩ := hmimicked'.state
    rw [← hrows T, hgaps, Tables.rows_skip]

/-- **`channelMap` is a cache.** Take two servers with the same database: one that has been running
for as long as you like, say, and one that has just been started. Whatever replies can be given on
the one to the calls that do not listen, with whatever rows stored, in any interleaving with each
other and with the calls that listen: they can on the other, and without losing a statement if none
is lost on the one. -/
theorem mayCome_iff (hdb : v.db = w.db)
    (hreplies : ∀ i, (calls i).listens ≠ none → replies i = none) :
    MayCome lossy calls w replies rows ↔ MayCome lossy calls v replies rows :=
  ⟨.of_db hdb hreplies, .of_db hdb.symm hreplies⟩

end Calls

/-! ## A server that is started again -/

private def regards : WrongthinkMessage :=
  { (default : WrongthinkMessage) with channelid := 1, userid := 1, text := "hello" }

/-- One sends, and the others listen. -/
private def gathering : ℕ → Request
  | 0 => .SendWrongthinkMessageWeb regards
  | i + 1 => .ListenWrongthinkMessages 1 i 1

private def warm : World .postgres :=
  (serve (World.start .postgres 0) [.CreateUser ⟨"root", "pw", false⟩,
    .CreateWrongthinkCommunity ⟨"all", 1, true⟩, .CreateWrongthinkChannel ⟨"main", 1, false, 1⟩,
    .SendWrongthinkMessageWeb regards]).2

private def cold : World .postgres := { warm with channelMap := fun _ ↦ none }

private def gathered : List (ℕ × Action .postgres) ×
    Pool ℕ Op Op.Result Exn Reply (World .postgres) :=
  Pool.replay Op.exec ⟨warm, fun i ↦ (gathering i).handle⟩ [1, 0, 1, 0, 1, 1, 0, 0, 0, 1, 0]

/-- What has been sent on the running server may have been sent on the new one. -/
theorem mayCome_iff_restarted :
    MayCome False gathering cold (fun i ↦ if i = 0 then some (Status.OK, .empty) else none)
      gathered.2.state.db.rows := by
  refine (mayCome_iff (v := cold) (w := warm) rfl ?_).mp ⟨gathered.1, gathered.2,
    Pool.replay_sound (Op.stepIf_exec False) _ _, ?_, fun T ↦ rfl⟩
  · rintro (_ | i) hi
    · exact absurd rfl hi
    · rfl
  · rintro (_ | i) reply hreply
    · cases hreply
      rfl
    · cases hreply

end Wrongthink
