import Wrongthink.Service.World

/-!
# What an insert adds

The inserts into `users`, `channels` and `communities`, as single steps of the server: either the
statement succeeds and there is one new row, under a new name and with a new key, or it raises and
there is none.
-/

namespace Wrongthink

open Concurrent

variable {b : Backend} {w w' : World b} {r : Except Exn Unit}

namespace Op.Step

theorem insertUser_eq {uname token : String} {admin : Bool}
    (h : Op.Step (.sql (.insertUser uname token admin)) w r w') :
    (r = .ok () ∧ ∃ u : UserRow, w'.db.users.rows = w.db.users.rows ++ [u] ∧
        varchar b 50 uname = .ok u.uname ∧ varchar b 50 token = .ok u.token ∧ u.admin = admin ∧
        u.uname ∉ w.db.users.rows.map (·.uname)) ∨
      ((∃ e, r = .error e) ∧ w'.db.users.rows = w.db.users.rows) := by
  obtain ⟨gaps, heffect⟩ := h.effect_now
  generalize w'.db.toTables = t' at *
  cases heffect with
  | same _ _ hsame => exact .inr ⟨hsame.resolve_left (by simp [Statement.target]), rfl⟩
  | insertUser _ _ _ uname' token' huname htoken hnew =>
    exact .inl ⟨rfl, _, rfl, huname, htoken, rfl, hnew⟩

theorem insertChannel_eq {name : String} {community admin_id : ℤ} {anonymous : Bool}
    (h : Op.Step (.sql (.insertChannel name community admin_id anonymous)) w r w') :
    (r = .ok () ∧ ∃ c : ChannelRow, w'.db.channels.rows = w.db.channels.rows ++ [c] ∧
        varchar b 100 name = .ok c.name ∧ c.community = community ∧ c.admin = admin_id ∧
        c.allow_anon = anonymous ∧ c.name ∉ w.db.channels.rows.map (·.name)) ∨
      ((∃ e, r = .error e) ∧ w'.db.channels.rows = w.db.channels.rows) := by
  obtain ⟨gaps, heffect⟩ := h.effect_now
  generalize w'.db.toTables = t' at *
  cases heffect with
  | same _ _ hsame => exact .inr ⟨hsame.resolve_left (by simp [Statement.target]), rfl⟩
  | insertChannel _ _ _ _ name' hname hnew _ =>
    exact .inl ⟨rfl, _, rfl, hname, rfl, rfl, rfl, hnew⟩

theorem insertCommunity_eq {name : String} {admin : ℤ} {pub : Bool}
    (h : Op.Step (.sql (.insertCommunity name admin pub)) w r w') :
    (r = .ok () ∧ ∃ c : CommunityRow, w'.db.communities.rows = w.db.communities.rows ++ [c] ∧
        varchar b 100 name = .ok c.name ∧ c.admin = admin ∧ c.pub = pub ∧
        c.name ∉ w.db.communities.rows.map (·.name)) ∨
      ((∃ e, r = .error e) ∧ w'.db.communities.rows = w.db.communities.rows) := by
  obtain ⟨gaps, heffect⟩ := h.effect_now
  generalize w'.db.toTables = t' at *
  cases heffect with
  | same _ _ hsame => exact .inr ⟨hsame.resolve_left (by simp [Statement.target]), rfl⟩
  | insertCommunity _ _ _ name' hname hnew _ =>
    exact .inl ⟨rfl, _, rfl, hname, rfl, rfl, hnew⟩

theorem insertMessage_eq {user_id channel thread_id thread_child : ℤ} {mtext : String}
    (h : Op.Step (.sql (.insertMessage user_id channel thread_id thread_child mtext)) w r w') :
    (r = .ok () ∧ ∃ m : MessageRow, w'.db.message.rows = w.db.message.rows ++ [m] ∧
        m.user_id = user_id ∧ m.channel = channel ∧ m.thread_id = thread_id ∧
        m.thread_child = thread_child ∧ m.edited = false ∧ m.mtext = mtext) ∨
      ((∃ e, r = .error e) ∧ w'.db.message.rows = w.db.message.rows) := by
  obtain ⟨gaps, heffect⟩ := h.effect_now
  generalize w'.db.toTables = t' at *
  cases heffect with
  | same _ _ hsame => exact .inr ⟨hsame.resolve_left (by simp [Statement.target]), rfl⟩
  | insertMessage _ _ _ _ _ thread_child' mdate hchild _ _ =>
    exact .inl ⟨rfl, _, rfl, rfl, rfl, rfl, eq_of_boolean hchild, rfl, rfl⟩

/-! ## Which inserts are accepted -/

private theorem isOk_written (t : Tables) (x : Except Exn Tables) :
    (Statement.written t x).1.isOk = x.isOk := by
  cases x <;> rfl

private theorem isOk_eq {q : Statement} {r : Except Exn q.Result}
    {x : World b → Except Exn Tables} (h : Op.Step (.sql q) w r w')
    (hlinked : r ≠ .error .connectionFailure)
    (hx : ∀ w : World b, ((Op.sql q).exec w).1.isOk = (x w).isOk) :
    ∃ d, r.isOk = (x (w.drift d)).isOk := by
  obtain ⟨d, ⟨rfl, _⟩ | ⟨_, rfl, _⟩⟩ := h.cases
  · exact ⟨d, hx _⟩
  · exact absurd rfl hlinked

/-- A name that can be stored as it is, is refused if it is taken; then it does not matter whether
the engine has another reason. -/
theorem insertUser_isOk_iff {uname token : String} {admin : Bool}
    (h : Op.Step (.sql (.insertUser uname token admin)) w r w')
    (hlinked : r ≠ .error .connectionFailure) (huname : varchar b 50 uname = .ok uname)
    (htoken : (∃ token', varchar b 50 token = .ok token') ∨
      uname ∈ w.db.users.rows.map (·.uname)) :
    r.isOk ↔ uname ∉ w.db.users.rows.map (·.uname) := by
  obtain ⟨d, hr⟩ := isOk_eq (x := fun w ↦ Statement.addUser b w.db.toTables uname token admin) h
    hlinked fun w ↦ isOk_written _ _
  have hrows : (w.drift d).db.users.rows = w.db.users.rows := rfl
  rw [hr, Statement.addUser, huname, Statement.ok_bind, hrows]
  cases htoken' : varchar b 50 token with
  | error e =>
    have htaken := htoken.resolve_left (by rw [htoken']; simp)
    exact iff_of_false (by simp [bind, Except.bind, Except.isOk, Except.toBool])
      (not_not.mpr htaken)
  | ok token' =>
    rw [Statement.ok_bind]
    by_cases htaken : uname ∈ w.db.users.rows.map (·.uname)
    · rw [if_pos htaken]
      exact iff_of_false (by simp [Except.isOk, Except.toBool]) (not_not.mpr htaken)
    · rw [if_neg htaken]
      exact iff_of_true rfl htaken

theorem insertCommunity_isOk_iff {name : String} {admin : ℤ} {pub : Bool}
    (h : Op.Step (.sql (.insertCommunity name admin pub)) w r w')
    (hlinked : r ≠ .error .connectionFailure) (hname : varchar b 100 name = .ok name)
    (href : b = .postgres → w.db.users.has admin ∨ name ∈ w.db.communities.rows.map (·.name)) :
    r.isOk ↔ name ∉ w.db.communities.rows.map (·.name) := by
  obtain ⟨d, hr⟩ := isOk_eq (x := fun w ↦ Statement.addCommunity b w.db.toTables name admin pub) h
    hlinked fun w ↦ isOk_written _ _
  have hrows : (w.drift d).db.communities.rows = w.db.communities.rows := rfl
  rw [hr, Statement.addCommunity, hname, Statement.ok_bind, hrows]
  by_cases htaken : name ∈ w.db.communities.rows.map (·.name)
  · rw [if_pos htaken]
    exact iff_of_false (by simp [Except.isOk, Except.toBool]) (not_not.mpr htaken)
  · have hnot : ¬(b = .postgres ∧ ¬(w.drift d).db.users.has admin) :=
      fun hb ↦ hb.2 ((href hb.1).resolve_right htaken)
    rw [if_neg htaken, if_neg hnot]
    exact iff_of_true rfl htaken

theorem insertChannel_isOk_iff {name : String} {community admin_id : ℤ} {anonymous : Bool}
    (h : Op.Step (.sql (.insertChannel name community admin_id anonymous)) w r w')
    (hlinked : r ≠ .error .connectionFailure) (hname : varchar b 100 name = .ok name)
    (href : b = .postgres → (w.db.communities.has community ∧ w.db.users.has admin_id) ∨
      name ∈ w.db.channels.rows.map (·.name)) :
    r.isOk ↔ name ∉ w.db.channels.rows.map (·.name) := by
  obtain ⟨d, hr⟩ := isOk_eq
    (x := fun w ↦ Statement.addChannel b w.db.toTables name community admin_id anonymous) h hlinked
    fun w ↦ isOk_written _ _
  have hrows : (w.drift d).db.channels.rows = w.db.channels.rows := rfl
  rw [hr, Statement.addChannel, hname, Statement.ok_bind, hrows]
  by_cases htaken : name ∈ w.db.channels.rows.map (·.name)
  · rw [if_pos htaken]
    exact iff_of_false (by simp [Except.isOk, Except.toBool]) (not_not.mpr htaken)
  · have hnot : ¬(b = .postgres ∧
        ¬((w.drift d).db.communities.has community ∧ (w.drift d).db.users.has admin_id)) :=
      fun hb ↦ hb.2 ((href hb.1).resolve_right htaken)
    rw [if_neg htaken, if_neg hnot]
    exact iff_of_true rfl htaken

theorem insertMessage_isOk {user_id channel thread_id thread_child : ℤ} {mtext : String}
    (h : Op.Step (.sql (.insertMessage user_id channel thread_id thread_child mtext)) w r w')
    (hlinked : r ≠ .error .connectionFailure) (hchild : boolean b thread_child = .ok thread_child)
    (hdate : int4 b w'.now = .ok w'.now)
    (href : b = .postgres → w.db.users.has user_id ∧ w.db.channels.has channel) : r.isOk := by
  obtain ⟨d, ⟨rfl, rfl⟩ | ⟨_, rfl, _⟩⟩ := h.cases
  swap
  · exact absurd rfl hlinked
  have hnow : int4 b d.now = .ok d.now := hdate
  have hnot : ¬(b = .postgres ∧
      ¬((w.drift d).db.users.has user_id ∧ (w.drift d).db.channels.has channel)) :=
    fun hb ↦ hb.2 (href hb.1)
  have hadd : (Statement.addMessage b d.now (w.drift d).db.toTables user_id channel thread_id
      thread_child mtext).isOk := by
    rw [Statement.addMessage, hchild, Statement.ok_bind, hnow, Statement.ok_bind, if_neg hnot]
    rfl
  exact (isOk_written _ _).trans hadd

end Op.Step

end Wrongthink
