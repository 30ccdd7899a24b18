import Wrongthink.Concurrent.InStep
import Wrongthink.Service.Frame

/-!
# Servers that differ in what is not to be seen

Two servers resemble each other when they differ in the tokens of their users, in their bans, and in
how far one of them is ahead with its sequences (`World.Resembles`). A statement that has nothing to
do with bans does the same on both (`Statement.exec_resembles`). A listing is an exception: it
selects every column of the users it joins with, tokens included, so what it fetches on the two
servers is not the same.
-/

namespace Wrongthink

open Concurrent Relational

variable {b : Backend}

/-! ## Tables -/

/-- A user without the token. -/
def UserRow.hush (u : UserRow) : UserRow := { u with token := "" }

/-- The same tables, but for the tokens and the bans. -/
structure Tables.Resembles (t t' : Tables) : Prop where
  users : t.users.rows.map UserRow.hush = t'.users.rows.map UserRow.hush
  next : t.users.next = t'.users.next
  communities : t.communities = t'.communities
  channels : t.channels = t'.channels
  message : t.message = t'.message

namespace Tables.Resembles

variable {t t' : Tables}

theorem skip (h : t.Resembles t') (g : Gaps) : (t.skip g).Resembles (t'.skip g) := by
  refine ⟨h.users, ?_, ?_, ?_, ?_⟩
  · exact congrArg (· + (g.users : ℤ)) h.next
  · exact congrArg (Serial.skip g.communities) h.communities
  · exact congrArg (Serial.skip g.channels) h.channels
  · exact congrArg (Serial.skip g.message) h.message

/-- What is computed from the users without their tokens is the same. -/
theorem users_eq {α : Type} (h : t.Resembles t') {f : List UserRow → α}
    (hf : ∀ rows, f (rows.map UserRow.hush) = f rows) : f t.users.rows = f t'.users.rows := by
  rw [← hf, h.users, hf]

theorem unames (h : t.Resembles t') :
    t.users.rows.map (·.uname) = t'.users.rows.map (·.uname) :=
  h.users_eq fun rows ↦ by rw [List.map_map]; rfl

theorem countP_admin (h : t.Resembles t') :
    t.users.rows.countP (·.admin) = t'.users.rows.countP (·.admin) :=
  h.users_eq fun rows ↦ by rw [List.countP_map]; rfl

theorem user_id (h : t.Resembles t') (uname : String) :
    (t.users.rows.find? fun u ↦ u.uname = uname).map (·.user_id) =
      (t'.users.rows.find? fun u ↦ u.uname = uname).map (·.user_id) :=
  h.users_eq (f := fun rows ↦ (rows.find? fun u ↦ u.uname = uname).map (·.user_id)) fun rows ↦ by
    rw [List.find?_map, Option.map_map]
    rfl

theorem has (h : t.Resembles t') (i : ℤ) : t.users.has i = t'.users.has i :=
  h.users_eq (f := fun rows ↦ rows.any fun u ↦ u.user_id = i) fun rows ↦ by
    rw [List.any_map]
    rfl

/-- What lies beside the users and the bans is not only similar but the same. -/
theorem exists_eq (h : t.Resembles t') : ∃ users banned_users banned_ips, t' =
    { t with users := users, banned_users := banned_users, banned_ips := banned_ips } := by
  refine ⟨t'.users, t'.banned_users, t'.banned_ips, ?_⟩
  rw [h.communities, h.channels, h.message]

theorem forall₂ (h : t.Resembles t') :
    List.Forall₂ (fun u u' : UserRow ↦ u.hush = u'.hush) t.users.rows t'.users.rows :=
  (forall₂_of_map_eq h.users).imp fun _ _ hu ↦ hu.2

end Tables.Resembles

/-! ## Statements -/

namespace Statement

/-- The statements that neither compare tokens nor look at bans, and that return no tokens. -/
def plain : Statement → Bool
  | selectUserId _ | countAdmins | insertUser _ _ _ | insertChannel _ _ _ _ | selectChannelId _
  | insertCommunity _ _ _ | selectCommunityId _ | selectChannelName _
  | insertMessage _ _ _ _ _ => true
  | _ => false

variable {t t' : Tables} {now : ℤ}

theorem written_resembles {x x' : Except Exn Tables} (h : t.Resembles t')
    (hx : SameAnswer Tables.Resembles x x') :
    (written t x).1 = (written t' x').1 ∧ (written t x).2.Resembles (written t' x').2 := by
  cases hx with
  | ok hu => exact ⟨rfl, hu⟩
  | error e => exact ⟨rfl, h⟩

/-- The token of a new user matters only in so far as it has to fit. -/
theorem addUser_resembles (h : t.Resembles t') {token token' : String}
    (hfit : SameAnswer (fun _ _ ↦ True) (varchar b 50 token) (varchar b 50 token'))
    (uname : String) (admin : Bool) :
    SameAnswer Tables.Resembles (addUser b t uname token admin)
      (addUser b t' uname token' admin) := by
  refine (SameAnswer.refl (fun _ ↦ rfl) (varchar b 50 uname)).bind fun name _ hname ↦ ?_
  subst hname
  refine hfit.bind fun stored stored' _ ↦ ?_
  rw [h.unames]
  split
  · exact .error _
  · refine .ok ⟨?_, ?_, h.communities, h.channels, h.message⟩
    · dsimp only
      rw [Serial.rows_push, Serial.rows_push, List.map_append, List.map_append, h.users]
      simp [UserRow.hush, h.next]
    · exact congrArg (· + (1 : ℤ)) h.next

theorem addChannel_resembles (h : t.Resembles t') (name : String) (community admin_id : ℤ)
    (anonymous : Bool) :
    SameAnswer Tables.Resembles (addChannel b t name community admin_id anonymous)
      (addChannel b t' name community admin_id anonymous) := by
  have hhas := h.has admin_id
  obtain ⟨users, banned_users, banned_ips, rfl⟩ := h.exists_eq
  refine (SameAnswer.refl (fun _ ↦ rfl) (varchar b 100 name)).bind fun name _ hname ↦ ?_
  subst hname
  rw [hhas]
  split
  · exact .error _
  split
  · exact .error _
  · exact .ok ⟨h.users, h.next, rfl, rfl, rfl⟩

theorem addCommunity_resembles (h : t.Resembles t') (name : String) (admin : ℤ) (pub : Bool) :
    SameAnswer Tables.Resembles (addCommunity b t name admin pub)
      (addCommunity b t' name admin pub) := by
  have hhas := h.has admin
  obtain ⟨users, banned_users, banned_ips, rfl⟩ := h.exists_eq
  refine (SameAnswer.refl (fun _ ↦ rfl) (varchar b 100 name)).bind fun name _ hname ↦ ?_
  subst hname
  rw [hhas]
  split
  · exact .error _
  split
  · exact .error _
  · exact .ok ⟨h.users, h.next, rfl, rfl, rfl⟩

theorem addMessage_resembles (h : t.Resembles t') (user_id channel thread_id thread_child : ℤ)
    (mtext : String) :
    SameAnswer Tables.Resembles (addMessage b now t user_id channel thread_id thread_child mtext)
      (addMessage b now t' user_id channel thread_id thread_child mtext) := by
  have hhas := h.has user_id
  obtain ⟨users, banned_users, banned_ips, rfl⟩ := h.exists_eq
  refine (SameAnswer.refl (fun _ ↦ rfl) (boolean b thread_child)).bind fun child _ hchild ↦ ?_
  subst hchild
  refine (SameAnswer.refl (fun _ ↦ rfl) (int4 b now)).bind fun date _ hdate ↦ ?_
  subst hdate
  rw [hhas]
  split
  · exact .error _
  · exact .ok ⟨h.users, h.next, rfl, rfl, rfl⟩

/-- **A plain statement does the same on tables that resemble each other.** -/
theorem exec_resembles {q : Statement} (hq : q.plain = true) (h : t.Resembles t') :
    (exec b now q t).1 = (exec b now q t').1 ∧
      (exec b now q t).2.Resembles (exec b now q t').2 := by
  cases q with
  | selectUserId uname => exact ⟨congrArg Except.ok (h.user_id uname), h⟩
  | countAdmins => exact ⟨congrArg Except.ok h.countP_admin, h⟩
  | insertUser uname token admin =>
    exact written_resembles h (addUser_resembles h (.refl (fun _ ↦ trivial) _) uname admin)
  | insertChannel name community admin_id anonymous =>
    exact written_resembles h (addChannel_resembles h name community admin_id anonymous)
  | selectChannelId name =>
    refine ⟨?_, h⟩
    rw [exec, exec, h.channels]
  | insertCommunity name admin pub =>
    exact written_resembles h (addCommunity_resembles h name admin pub)
  | selectCommunityId name =>
    refine ⟨?_, h⟩
    rw [exec, exec, h.communities]
  | selectChannelName channel_id =>
    refine ⟨?_, h⟩
    rw [exec, exec, h.channels]
  | insertMessage user_id channel thread_id thread_child mtext =>
    exact written_resembles h (addMessage_resembles h user_id channel thread_id thread_child mtext)
  | _ => cases hq

/-- What a listing fetches: rows that are the same but for the token of the user each is joined
with. -/
def Joined {ρ : Type} (columns : ρ → SqlRow) (row row' : SqlRow) : Prop :=
  ∃ (x : ρ) (u u' : UserRow), u.hush = u'.hush ∧ row = columns x ++ u.columns ∧
    row' = columns x ++ u'.columns

theorem join_resembles {ρ : Type} {columns : ρ → SqlRow} (h : t.Resembles t') (l : List ρ)
    (fk : ρ → ℤ) :
    List.Forall₂ (Joined columns)
      ((Serial.join l t.users fk).map fun x ↦ columns x.1 ++ x.2.columns)
      ((Serial.join l t'.users fk).map fun x ↦ columns x.1 ++ x.2.columns) := by
  rw [List.forall₂_map_left_iff, List.forall₂_map_right_iff]
  have hsame : List.Forall₂ Eq l l := List.forall₂_same.mpr fun _ _ ↦ rfl
  have hjoin := Serial.join_of_forall₂ fk fk hsame h.forall₂ fun m m' u u' hm hu ↦ ?_
  · refine hjoin.imp fun x x' hx ↦ ⟨x.1, x.2, x'.2, hx.2, rfl, ?_⟩
    rw [hx.1]
  · have hid : u.user_id = u'.user_id := congrArg (·.user_id) hu
    rw [hm, hid]

theorem exec_hidden {q : Statement} (hq : q.target = none ∨ q.target = some .banned_users)
    (h : t.Resembles t') : (exec b now q t).2.Resembles t' := by
  have heffect := exec_effect b now t q
  generalize (exec b now q t).1 = r at heffect
  generalize (exec b now q t).2 = t₂ at heffect ⊢
  cases heffect with
  | same _ _ _ => exact h
  | updateBannedUser _ _ _ _ _ _ => exact ⟨h.users, h.next, h.communities, h.channels, h.message⟩
  | updateNobody _ _ _ => exact h
  | insertBannedUser _ _ _ _ _ _ _ => exact ⟨h.users, h.next, h.communities, h.channels, h.message⟩
  | _ => rcases hq with hq | hq <;> cases hq

end Statement

/-! ## Worlds -/

namespace World

variable {w v : World b}

/-- The same server, but for the tokens and the bans. The sequences of `w` may be ahead. -/
structure Resembles (w v : World b) : Prop where
  db : ∃ g, w.db.toTables.Resembles (v.db.toTables.skip g)
  channelMap : w.channelMap = v.channelMap

/-- Resembles, and at the same point with their sequences and clocks. -/
structure Level (w v : World b) : Prop where
  db : w.db.toTables.Resembles v.db.toTables
  channelMap : w.channelMap = v.channelMap
  now : w.now = v.now

theorem Level.resembles (h : w.Level v) : w.Resembles v := by
  refine ⟨⟨⟨0, 0, 0, 0⟩, ?_⟩, h.channelMap⟩
  simpa [Tables.skip] using h.db

namespace Resembles

theorem drift (h : w.Resembles v) (d : Drift) : (w.drift d).Resembles v := by
  obtain ⟨⟨g, hg⟩, hmap⟩ := h
  refine ⟨⟨g + d.gaps, ?_⟩, hmap⟩
  rw [← Tables.skip_skip]
  exact hg.skip d.gaps

/-- What comes from outside may catch up with the other server. -/
theorem exists_level (h : w.Resembles v) (d : Drift) : ∃ d', (w.drift d).Level (v.drift d') := by
  obtain ⟨⟨g, hg⟩, hmap⟩ := h
  refine ⟨⟨d.now, g + d.gaps⟩, ?_, hmap, rfl⟩
  change (w.db.toTables.skip d.gaps).Resembles (v.db.toTables.skip (g + d.gaps))
  rw [← Tables.skip_skip]
  exact hg.skip d.gaps

end Resembles

end World

/-! ## Actions -/

namespace Op

def Plain : Op → Prop
  | sql q => q.plain = true
  | _ => True

/-- The actions of two handlers that differ in what is not to be seen. -/
inductive Resembles (b : Backend) : Op → Op → Prop where
  | plain {o} (ho : o.Plain) : Resembles b o o
  | insertUser (uname token token' admin)
      (hfit : SameAnswer (fun _ _ ↦ True) (varchar b 50 token) (varchar b 50 token')) :
      Resembles b (.sql (.insertUser uname token admin)) (.sql (.insertUser uname token' admin))
  | selectCommunities : Resembles b (.sql .selectCommunities) (.sql .selectCommunities)
  | selectCommunityChannels (id) :
      Resembles b (.sql (.selectCommunityChannels id)) (.sql (.selectCommunityChannels id))
  | selectChannelMessages (id) :
      Resembles b (.sql (.selectChannelMessages id)) (.sql (.selectChannelMessages id))

/-- What is fetched is the same, but for the tokens in it. -/
def Fetched : (o o' : Op) → o.Result → o'.Result → Prop
  | sql .selectCommunities, sql .selectCommunities =>
    List.Forall₂ (Statement.Joined CommunityRow.columns)
  | sql (.selectCommunityChannels _), sql (.selectCommunityChannels _) =>
    List.Forall₂ (Statement.Joined ChannelRow.columns)
  | sql (.selectChannelMessages _), sql (.selectChannelMessages _) =>
    List.Forall₂ (Statement.Joined MessageRow.columns)
  | _, _ => fun v v' ↦ HEq v v'

/-- Of a handler with other secrets, the actions that correspond. -/
def resemblance (b : Backend) : Correspondence Op Op.Result := ⟨Op.Resembles b, Op.Fetched⟩

theorem Plain.fetched_iff {o : Op} (ho : o.Plain) {v v' : o.Result} :
    o.Fetched o v v' ↔ v = v' := by
  have heq : o.Fetched o v v' ↔ HEq v v' := by
    cases o with
    | sql q =>
      cases q with
      | selectCommunities | selectCommunityChannels _ | selectChannelMessages _ => cases ho
      | _ => exact Iff.rfl
    | _ => exact Iff.rfl
  rw [heq, heq_iff_eq]

variable {o o' : Op} {w v w' : World b}

theorem exec_level (ho : o.Plain) (h : w.Level v) :
    (o.exec w).1 = (o.exec v).1 ∧ (o.exec w).2.Level (o.exec v).2 := by
  have hmap := h.channelMap
  cases o with
  | sql q =>
    have hexec : (q.exec b v.now w.db.toTables).1 = (q.exec b v.now v.db.toTables).1 ∧
        (q.exec b v.now w.db.toTables).2.Resembles (q.exec b v.now v.db.toTables).2 :=
      Statement.exec_resembles ho h.db
    rw [exec, exec, h.now]
    exact ⟨hexec.1, hexec.2, hmap, rfl⟩
  | time => exact ⟨congrArg Except.ok h.now, h⟩
  | count id =>
    refine ⟨?_, h⟩
    rw [exec, exec, hmap]
  | emplace id name =>
    refine ⟨rfl, h.db, ?_, h.now⟩
    rw [exec, exec, World.insertNew, World.insertNew, hmap]
  | index id =>
    refine ⟨rfl, h.db, ?_, h.now⟩
    rw [exec, exec, World.insertNew, World.insertNew, hmap]
  | push id msg =>
    refine ⟨rfl, h.db, ?_, h.now⟩
    rw [exec, exec, World.modify, World.modify, hmap]
  | notifyAll id =>
    refine ⟨rfl, h.db, ?_, h.now⟩
    rw [exec, exec, World.modify, World.modify, hmap]
  | wait id l =>
    refine ⟨rfl, h.db, ?_, h.now⟩
    rw [exec, exec, World.modify, World.modify, hmap]
  | wake id l =>
    refine ⟨?_, h.db, ?_, h.now⟩
    · rw [exec, exec, hmap]
    · rw [exec, exec, World.modify, World.modify, hmap]
  | _ => exact ⟨rfl, h⟩

theorem exec_level_of_resembles (ho : Op.Resembles b o o') (h : w.Level v) :
    SameAnswer (Op.Fetched o o') (o.exec w).1 (o'.exec v).1 ∧ (o.exec w).2.Level (o'.exec v).2 := by
  cases ho with
  | plain ho =>
    obtain ⟨hr, hlevel⟩ := exec_level ho h
    rw [hr]
    exact ⟨.refl (fun _ ↦ ho.fetched_iff.mpr rfl) _, hlevel⟩
  | insertUser uname token token' admin hfit =>
    obtain ⟨hr, hdb⟩ :=
      Statement.written_resembles h.db (Statement.addUser_resembles h.db hfit uname admin)
    refine ⟨?_, hdb, h.channelMap, h.now⟩
    change SameAnswer _ (Statement.written _ _).1 (Statement.written _ _).1
    rw [hr]
    exact .refl (fun _ ↦ HEq.rfl) _
  | selectCommunities =>
    refine ⟨.ok ?_, h⟩
    rw [← h.db.communities]
    exact Statement.join_resembles h.db _ _
  | selectCommunityChannels id =>
    refine ⟨.ok ?_, h⟩
    rw [← h.db.channels]
    exact Statement.join_resembles h.db _ _
  | selectChannelMessages id =>
    refine ⟨.ok ?_, h⟩
    rw [← h.db.message]
    exact Statement.join_resembles h.db _ _

theorem Resembles.store_eq (h : Op.Resembles b o o') : o'.store = o.store := by
  cases h <;> rfl

theorem exec_aside {r : Except Exn o.Result} (ho : o.Aside (some .banned_users)) (h : w.Resembles v)
    (hs : Op.Step o w r w') : w'.Resembles v := by
  obtain ⟨d, ⟨_, rfl⟩ | ⟨_, _, rfl⟩⟩ := hs.cases
  · have hdrift := h.drift d
    cases o with
    | sql q =>
      obtain ⟨⟨g, hg⟩, hmap⟩ := hdrift
      exact ⟨⟨g, Statement.exec_hidden ho.1 hg⟩, hmap⟩
    | emplace _ _ | index _ | push _ _ | notifyAll _ | wait _ _ | wake _ _ => cases ho.2
    | _ => exact hdrift
  · exact h.drift d

/-- **Tokens and bans do not show in what others do.** -/
theorem unwinds : Unwinds Op.Step (Op.resemblance b) (Op.Aside (some .banned_users))
    (World.Resembles (b := b)) where
  step := by
    intro o o' w v r w' ho h hs
    obtain ⟨d, ⟨rfl, rfl⟩ | ⟨hstore, rfl, rfl⟩⟩ := hs.cases
    · obtain ⟨d', hlevel⟩ := h.exists_level d
      obtain ⟨hr, hlevel⟩ := exec_level_of_resembles ho hlevel
      exact ⟨_, _, .exec d' o' v, hr, hlevel.resembles⟩
    · obtain ⟨d', hlevel⟩ := h.exists_level d
      exact ⟨_, _, .lost d' o' v (ho.store_eq.trans hstore), .error _, hlevel.resembles⟩
  hidden := fun ho h hs ↦ exec_aside ho h hs

end Op

end Wrongthink
