import Wrongthink.Creation.Answers
import Wrongthink.Creation.Listings

/-!
# From the request to the listing

A creation that was answered `OK` is later listed with the id of the answer, its name, its community
and the name of its admin, as it was requested, if its name fits its column. The listings read the
columns of a join by their positions, and position 2 of the join for the channels is the column of
the community and not the one of `allow_anon`; ids of communities are never zero, so every channel
is listed as anonymous. Hence what is listed is what was requested if and only if the name fits, and
the channel was to be anonymous (`shownIn_iff`).

The creation and the listing are handlers among any others, and nothing but the rows connects them:
the listing may send its query at any time after the creation has answered, with other handlers
running in between its own actions.
-/

namespace Wrongthink

open Concurrent Relational

variable {ι : Type} [DecidableEq ι] {calls : ι → Request}
  {c c₁ c₂ : Pool ι Op Op.Result Exn Reply (World .postgres)} {l₁ l₂ : List (ι × Action .postgres)}
  {i j : ι} {n : ℤ} {out : Response}

/-! ## What a listing owes a creation -/

/-- The request that lists what `r` creates. -/
def Request.listing : Request → Option Request
  | CreateWrongthinkCommunity _ => some GetWrongthinkCommunities
  | CreateWrongthinkChannel request => some (GetWrongthinkChannels request.communityid)
  | _ => none

/-- The listing `out` shows what the request has created, under the id of its answer. -/
def Request.ShownIn {b : Backend} (w : World b) (id : ℤ) : Request → Response → Prop
  | CreateWrongthinkCommunity request, .communities out =>
    ∃ u ∈ w.db.users.rows, u.user_id = request.adminid ∧
      { communityid := id, name := request.name, unameadmin := u.uname } ∈ out
  | CreateWrongthinkChannel request, .channels out =>
    ∃ u ∈ w.db.users.rows, u.user_id = request.adminid ∧
      { channelid := id, name := request.name, anonymous := request.anonymous,
        communityid := request.communityid, unameadmin := u.uname } ∈ out
  | _, _ => False

/-- The requests that are listed as they are. -/
def Request.Legible : Request → Prop
  | CreateWrongthinkCommunity request => request.name.length ≤ 100
  | CreateWrongthinkChannel request => request.name.length ≤ 100 ∧ request.anonymous = true
  | _ => False

/-- In a run from the start of the server, the creation of the thread `i` has been answered with the
id `n`, and then the thread `j` has sent the query of its listing and has answered with `out`. -/
structure ListedAfter (calls : ι → Request)
    (c : Pool ι Op Op.Result Exn Reply (World .postgres)) (l₁ : List (ι × Action .postgres))
    (c₁ : Pool ι Op Op.Result Exn Reply (World .postgres)) (l₂ : List (ι × Action .postgres))
    (c₂ : Pool ι Op Op.Result Exn Reply (World .postgres)) (i j : ι) (n : ℤ) (out : Response) :
    Prop where
  start : ∃ now, c.state = World.start .postgres now
  handling : ∀ i, c.thread i = (calls i).handle
  before : Pool.Steps Op.Step c l₁ c₁
  created : c₁.thread i = .done (Status.OK, .id n)
  later : ∀ e ∈ view j l₁, e.op = .session
  after : Pool.Steps Op.Step c₁ l₂ c₂
  listing : (calls i).listing = some (calls j)
  listed : c₂.thread j = .done (Status.OK, out)

/-! ## The row of the creation -/

/-- What a creation answers `OK` with is the key of its row, if it has kept the name. -/
theorem Creates.Outcome.exists_key {b : Backend} {x : Creates} {tr : List (Action b)}
    {reply : Reply} {w : World b} (h : x.Outcome tr reply) (hok : reply.1 = Status.OK)
    (hstep : ∀ e ∈ tr, Op.Step e.op e.before e.result e.after)
    (hgrows : tr.Pairwise fun e f ↦ e.after.Grows f.before) (hend : ∀ e ∈ tr, e.after.Grows w) :
    ∃ adminct n, reply.2 = x.response adminct n ∧
      (x.call.Kept b → (n, x.call.name) ∈ w.entries x.call.table) := by
  cases h with
  | refused hidle => cases hok
  | lost hprepare hlost => cases hok
  | @answered tr₁ adminct v r v' e tr₂ hprepare hlooks hrest =>
    refine ⟨adminct, _, rfl, fun hkept ↦ ?_⟩
    have hinsert := hstep ⟨v, .sql (x.call.insert adminct), .ok r, v'⟩ (by simp)
    obtain ⟨_, m, name, hentries, hname, _⟩ :=
      (Creation.insert_eq hinsert).resolve_right (by simp)
    rw [hkept name hname] at hentries
    have hnew : (m, x.call.name) ∈ v'.entries x.call.table := by
      rw [hentries]
      simp
    have hlater : v'.Grows e.before := by
      rw [List.pairwise_append] at hgrows
      exact (List.pairwise_cons.mp hgrows.2.1).1 e List.mem_cons_self
    rw [Creation.lookup_eq_some ((hlater.entries x.call.table).subset hnew), Option.getD_some]
    exact ((hend ⟨v, .sql (x.call.insert adminct), .ok r, v'⟩ (by simp)).entries
      x.call.table).subset hnew

theorem World.channel_id_eq {b : Backend} {w : World b} {row : ChannelRow}
    (hrow : row ∈ w.db.channels.rows) (hn : (n, row.name) ∈ w.entries .channels) :
    row.channel_id = n := by
  have hmem : (row.channel_id, row.name) ∈ w.entries .channels := List.mem_map.mpr ⟨row, hrow, rfl⟩
  exact congrArg Prod.fst
    (List.inj_on_of_nodup_map (w.nodup_names .channels) hmem hn rfl)

theorem World.community_id_eq {b : Backend} {w : World b} {row : CommunityRow}
    (hrow : row ∈ w.db.communities.rows) (hn : (n, row.name) ∈ w.entries .communities) :
    row.community_id = n := by
  have hmem : (row.community_id, row.name) ∈ w.entries .communities :=
    List.mem_map.mpr ⟨row, hrow, rfl⟩
  exact congrArg Prod.fst
    (List.inj_on_of_nodup_map (w.nodup_names .communities) hmem hn rfl)

namespace ListedAfter

theorem creation (h : ListedAfter calls c l₁ c₁ l₂ c₂ i j n out) {x : Creates}
    (hx : (calls i).creates = some x) : i ∈ inserters x.call.table l₁ ∧
      ∃ adminct m, Response.id n = x.response adminct m ∧
        (x.call.Kept .postgres → (m, x.call.name) ∈ c₁.state.entries x.call.table) := by
  have hstep : ∀ e ∈ view i l₁, Op.Step e.op e.before e.result e.after :=
    fun e he ↦ h.before.sem_of_view he
  have htrace := h.before.view_trace i
  rw [h.handling i, h.created] at htrace
  have houtcome := outcome_of_trace hx hstep htrace
  have hend : ∀ e ∈ view i l₁, e.after.Grows c₁.state := fun e he ↦
    (grows_of_steps h.before (mem_view.mp he)).2
  refine ⟨mem_inserters.mpr (houtcome.exists_insert rfl), houtcome.exists_key rfl hstep ?_ hend⟩
  exact h.before.pairwise_view (fun _ _ hs ↦ hs.grows) i

theorem start_rows (h : ListedAfter calls c l₁ c₁ l₂ c₂ i j n out) :
    c.state.db.communities.rows = [] ∧ c.state.db.channels.rows = [] := by
  obtain ⟨now, hstart⟩ := h.start
  rw [hstart]
  exact ⟨rfl, rfl⟩

theorem channel_row (h : ListedAfter calls c l₁ c₁ l₂ c₂ i j n out)
    {request : CreateWrongThinkChannelRequest}
    (hr : calls i = .CreateWrongthinkChannel request) (hname : request.name.length ≤ 100) :
    ∃ row ∈ c₁.state.db.channels.rows, row.channel_id = n ∧ row.name = request.name ∧
      row.community = request.communityid ∧ row.admin = request.adminid := by
  obtain ⟨hi, _, m, hm, hkey⟩ := h.creation (by rw [hr]; rfl)
  obtain rfl : n = m := Response.id.inj hm
  obtain ⟨row, hrow, _, hr', hstored, hcommunity, hadmin⟩ :=
    exists_of_forall₂ (rows_channels h.start_rows.2 h.handling h.before) hi
  rw [hr] at hr'
  obtain rfl := Request.CreateWrongthinkChannel.inj hr'
  have hkept : row.name = request.name := eq_of_varchar_of_length_le hname hstored
  refine ⟨row, hrow, World.channel_id_eq hrow ?_, hkept, hcommunity, hadmin⟩
  rw [hkept]
  exact hkey fun name hstored ↦ eq_of_varchar_of_length_le hname hstored

theorem community_row (h : ListedAfter calls c l₁ c₁ l₂ c₂ i j n out)
    {request : CreateWrongthinkCommunityRequest}
    (hr : calls i = .CreateWrongthinkCommunity request) (hname : request.name.length ≤ 100) :
    ∃ row ∈ c₁.state.db.communities.rows, row.community_id = n ∧ row.name = request.name ∧
      row.admin = request.adminid := by
  obtain ⟨hi, _, m, hm, hkey⟩ := h.creation (by rw [hr]; rfl)
  obtain rfl : n = m := Response.id.inj hm
  obtain ⟨row, hrow, _, hr', hstored, hadmin⟩ :=
    exists_of_forall₂ (rows_communities h.start_rows.1 h.handling h.before) hi
  rw [hr] at hr'
  obtain rfl := Request.CreateWrongthinkCommunity.inj hr'
  have hkept : row.name = request.name := eq_of_varchar_of_length_le hname hstored
  refine ⟨row, hrow, World.community_id_eq hrow ?_, hkept, hadmin⟩
  rw [hkept]
  exact hkey fun name hstored ↦ eq_of_varchar_of_length_le hname hstored

end ListedAfter

/-! ## The rows of the listing -/

namespace ListedAfter

theorem exists_read (h : ListedAfter calls c l₁ c₁ l₂ c₂ i j n out) {α : Type} {q : Statement}
    {F : q.Result → Status × α} {f : α → Response} {none : α}
    (hhandle : (calls j).handle =
      caught f none (do perform .session; let rs ← sql q; return F rs)) :
    ∃ (w : World .postgres) (rs : q.Result) (w' : World .postgres), c₁.state.Grows w ∧
      w.Grows c₂.state ∧ Op.Step (.sql q) w (.ok rs) w' ∧ out = f (F rs).2 := by
  have htrace := (h.before.append h.after).view_trace j
  rw [view_append, h.handling j, h.listed, hhandle] at htrace
  obtain ⟨_, hreply⟩ | ⟨_, _, w, rs, w', hview, hreply⟩ := trace_listing htrace
  · cases hreply
  · have hmem : (⟨w, .sql q, .ok rs, w'⟩ : Action .postgres) ∈ view j l₂ := by
      have hmem : (⟨w, .sql q, .ok rs, w'⟩ : Action .postgres) ∈ view j l₁ ++ view j l₂ := by
        rw [hview]
        simp
      refine (List.mem_append.mp hmem).resolve_left fun hearly ↦ ?_
      cases h.later _ hearly
    have hle := (h.after.run.le fun _ _ hs ↦ hs.grows).2 _ ((view_sublist j l₂).subset hmem)
    exact ⟨w, rs, w', hle.1, trans_of World.Grows hle.2.1 hle.2.2, h.after.sem_of_view hmem,
      congrArg Prod.snd hreply⟩

theorem channels_out (h : ListedAfter calls c l₁ c₁ l₂ c₂ i j n out)
    {request : CreateWrongThinkChannelRequest} (hr : calls i = .CreateWrongthinkChannel request) :
    ∃ w : World .postgres, c₁.state.Grows w ∧ w.Grows c₂.state ∧
      out = .channels ((w.adminedChannels request.communityid).map
        (shownChannel request.communityid)) := by
  have hlisting := h.listing
  rw [hr] at hlisting
  obtain ⟨w, rs, w', hle, hle', hquery, hout⟩ := h.exists_read
    (q := .selectCommunityChannels request.communityid) (by rw [← Option.some.inj hlisting]; rfl)
  rw [hquery.selectCommunityChannels_eq] at hout
  exact ⟨w, hle, hle', hout⟩

theorem communities_out (h : ListedAfter calls c l₁ c₁ l₂ c₂ i j n out)
    {request : CreateWrongthinkCommunityRequest}
    (hr : calls i = .CreateWrongthinkCommunity request) :
    ∃ w : World .postgres, c₁.state.Grows w ∧ w.Grows c₂.state ∧
      out = .communities (w.adminedCommunities.map shownCommunity) := by
  have hlisting := h.listing
  rw [hr] at hlisting
  obtain ⟨w, rs, w', hle, hle', hquery, hout⟩ := h.exists_read (q := .selectCommunities)
    (by rw [← Option.some.inj hlisting]; rfl)
  rw [hquery.selectCommunities_eq] at hout
  exact ⟨w, hle, hle', hout⟩

/-! ## What is shown -/

/-- A channel is shown as anonymous, and under a name that fits its column. -/
theorem channel_shown (h : ListedAfter calls c l₁ c₁ l₂ c₂ i j n out) {row : ChannelRow}
    (hrow : row ∈ c₂.state.db.channels.rows) : row.name.length ≤ 100 ∧ row.community ≠ 0 := by
  have hsteps := h.before.append h.after
  constructor
  · obtain ⟨_, _, request, _, hstored, _⟩ :=
      exists_of_forall₂ (rows_channels h.start_rows.2 h.handling hsteps).flip hrow
    exact length_le_of_varchar hstored
  · obtain ⟨now, hstart⟩ := h.start
    have hnumbered : c₂.state.Numbered := by
      refine hsteps.run.preserves (I := World.Numbered) (fun _ _ hs hw ↦ hs.numbered hw) ?_
      rw [hstart]
      exact World.numbered_start now
    obtain ⟨com, hcom, hid⟩ := (c₂.state.db.valid.references rfl).channel_community row hrow
    have hpos := hnumbered.2 com hcom
    omega

theorem community_shown (h : ListedAfter calls c l₁ c₁ l₂ c₂ i j n out) {row : CommunityRow}
    (hrow : row ∈ c₂.state.db.communities.rows) : row.name.length ≤ 100 := by
  obtain ⟨_, _, request, _, hstored, _⟩ := exists_of_forall₂
    (rows_communities h.start_rows.1 h.handling (h.before.append h.after)).flip hrow
  exact length_le_of_varchar hstored

theorem channel_iff (h : ListedAfter calls c l₁ c₁ l₂ c₂ i j n out)
    {request : CreateWrongThinkChannelRequest} (hr : calls i = .CreateWrongthinkChannel request) :
    (Request.CreateWrongthinkChannel request).ShownIn c₂.state n out ↔
      request.name.length ≤ 100 ∧ request.anonymous = true := by
  obtain ⟨w, hle, hle', rfl⟩ := h.channels_out hr
  constructor
  · rintro ⟨u, _, _, hmem⟩
    obtain ⟨⟨row, u'⟩, hjoin, hshown⟩ := List.mem_map.mp hmem
    obtain ⟨hlength, hcommunity⟩ := h.channel_shown
      (hle'.db.channels.subset (List.mem_filter.mp (Serial.mem_join.mp hjoin).1).1)
    rw [shownChannel, WrongthinkChannel.mk.injEq] at hshown
    obtain ⟨_, hname, hanonymous, _⟩ := hshown
    refine ⟨by rwa [← hname], ?_⟩
    rw [← hanonymous]
    exact decide_eq_true hcommunity
  · rintro ⟨hname, hanonymous⟩
    obtain ⟨row, hrow, hid, hkept, hcommunity, hadmin⟩ := h.channel_row hr hname
    have hrow' : row ∈ w.db.channels.rows := hle.db.channels.subset hrow
    obtain ⟨u, hu, huid⟩ := (w.db.valid.references rfl).channel_admin row hrow'
    refine ⟨u, hle'.db.users.subset hu, huid.trans hadmin, List.mem_map.mpr ⟨(row, u), ?_, ?_⟩⟩
    · exact Serial.mem_join.mpr ⟨List.mem_filter.mpr ⟨hrow', by simpa using hcommunity⟩, hu, huid⟩
    · have hne := (h.channel_shown (hle'.db.channels.subset hrow')).2
      rw [shownChannel, hid, hkept, decide_eq_true hne, hanonymous]

theorem community_iff (h : ListedAfter calls c l₁ c₁ l₂ c₂ i j n out)
    {request : CreateWrongthinkCommunityRequest}
    (hr : calls i = .CreateWrongthinkCommunity request) :
    (Request.CreateWrongthinkCommunity request).ShownIn c₂.state n out ↔
      request.name.length ≤ 100 := by
  obtain ⟨w, hle, hle', rfl⟩ := h.communities_out hr
  constructor
  · rintro ⟨u, _, _, hmem⟩
    obtain ⟨⟨row, u'⟩, hjoin, hshown⟩ := List.mem_map.mp hmem
    rw [shownCommunity, WrongthinkCommunity.mk.injEq] at hshown
    rw [← hshown.2.1]
    exact h.community_shown (hle'.db.communities.subset (Serial.mem_join.mp hjoin).1)
  · intro hname
    obtain ⟨row, hrow, hid, hkept, hadmin⟩ := h.community_row hr hname
    have hrow' : row ∈ w.db.communities.rows := hle.db.communities.subset hrow
    obtain ⟨u, hu, huid⟩ := (w.db.valid.references rfl).community_admin row hrow'
    refine ⟨u, hle'.db.users.subset hu, huid.trans hadmin, List.mem_map.mpr ⟨(row, u), ?_, ?_⟩⟩
    · exact Serial.mem_join.mpr ⟨hrow', hu, huid⟩
    · rw [shownCommunity, hid, hkept]

end ListedAfter

/-- **Fidelity.** In every run, whatever else is requested at the same time: a listing that comes
after a creation shows it as it was requested, under the id it was answered with and with the name
of its admin, if and only if its name fits the column and, if it is a channel, it was to be
anonymous. -/
theorem shownIn_iff (h : ListedAfter calls c l₁ c₁ l₂ c₂ i j n out) :
    (calls i).ShownIn c₂.state n out ↔ (calls i).Legible := by
  have hlisting := h.listing
  cases hr : calls i with
  | CreateWrongthinkCommunity request => exact h.community_iff hr
  | CreateWrongthinkChannel request => exact h.channel_iff hr
  | _ =>
    rw [hr] at hlisting
    cases hlisting

/-- A user, a community and a channel are created, and the channels of the community are listed. -/
private def staged (anonymous : Bool) : ℕ → Request
  | 0 => .CreateUser ⟨"ann", "pw", false⟩
  | 1 => .CreateWrongthinkCommunity ⟨"all", 1, true⟩
  | 2 => .CreateWrongthinkChannel ⟨"main", 1, anonymous, 1⟩
  | _ => .GetWrongthinkChannels 1

private def opening (anonymous : Bool) : Pool (ℕ) Op Op.Result Exn Reply (World .postgres) :=
  ⟨World.start .postgres 0, fun i ↦ (staged anonymous i).handle⟩

private def creations (anonymous : Bool) : List (ℕ × Action .postgres) ×
    Pool (ℕ) Op Op.Result Exn Reply (World .postgres) :=
  Pool.replay Op.exec (opening anonymous) [0, 0, 0, 0, 1, 1, 1, 2, 2, 2]

private def inspection (anonymous : Bool) : List (ℕ × Action .postgres) ×
    Pool (ℕ) Op Op.Result Exn Reply (World .postgres) :=
  Pool.replay Op.exec (creations anonymous).2 [3, 3]

private theorem listedAfter_staged (anonymous : Bool) :
    ListedAfter (staged anonymous) (opening anonymous) (creations anonymous).1
      (creations anonymous).2 (inspection anonymous).1 (inspection anonymous).2 2 3 1
      (.channels [⟨1, "main", true, 1, "ann"⟩]) where
  start := ⟨0, rfl⟩
  handling _ := rfl
  before := Pool.replay_sound Op.step_exec _ _
  created := by cases anonymous <;> rfl
  later e he := by cases anonymous <;> cases he
  after := Pool.replay_sound Op.step_exec _ _
  listing := rfl
  listed := by cases anonymous <;> rfl

theorem shownIn_iff_staged :
    (staged true 2).ShownIn (inspection true).2.state 1 (.channels [⟨1, "main", true, 1, "ann"⟩]) ↔
      (staged true 2).Legible :=
  shownIn_iff (listedAfter_staged true)

/-- A channel that was not to be anonymous is listed as anonymous. -/
theorem exists_infidelity :
    ¬∀ (calls : ℕ → Request) (c c₁ c₂ : Pool (ℕ) Op Op.Result Exn Reply (World .postgres))
        (l₁ l₂ : List (ℕ × Action .postgres)) (i j : ℕ) (n : ℤ) (out : Response),
      ListedAfter calls c l₁ c₁ l₂ c₂ i j n out → (calls i).ShownIn c₂.state n out := by
  intro h
  obtain ⟨u, _, _, hmem⟩ := h _ _ _ _ _ _ _ _ _ _ (listedAfter_staged false)
  rw [List.mem_singleton, WrongthinkChannel.mk.injEq] at hmem
  exact absurd hmem.2.2.1 (by decide)

end Wrongthink
