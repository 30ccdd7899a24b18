import Mathlib.Data.Finset.Insert
import Wrongthink.Relational.Catalogue
import Wrongthink.Store.Tables

/-!
# Setting up the tables

`clear` and `validate` statement by statement. Both send one statement after the other, each on its
own, so either may be cut off between two of them, and the next start finds what is left. Postgres
refuses to drop a table while another one refers to it, and to create one that refers to a table
which is not there. The order of the statements sees to it that neither ever happens, wherever an
earlier start has been cut off; and a `clear` that is cut off leaves no row that refers to one which
is gone.
-/

namespace Wrongthink

open Relational

/-! ## Tables -/

inductive SqlTable where
  | users
  | banned_users
  | banned_ips
  | communities
  | channels
  | message
  | control_message
  deriving DecidableEq

namespace SqlTable

instance : Fintype SqlTable where
  elems := {users, banned_users, banned_ips, communities, channels, message, control_message}
  complete T := by cases T <;> simp

/-- The `references` clauses. -/
def refs : SqlTable → List SqlTable
  | users | banned_ips => []
  | banned_users => [users]
  | communities => [users]
  | channels => [communities, users]
  | message => [users, channels]
  | control_message => [users, channels]

/-- What a table holds. No statement ever writes to `control_message`. -/
abbrev Contents : SqlTable → Type
  | users => Serial UserRow UserRow.user_id
  | banned_users => List BannedUserRow
  | banned_ips => List BannedIpRow
  | communities => Serial CommunityRow CommunityRow.community_id
  | channels => Serial ChannelRow ChannelRow.channel_id
  | message => Serial MessageRow MessageRow.msg_id
  | control_message => Unit

/-- A table that has just been created. -/
def new : (T : SqlTable) → T.Contents
  | users => .empty
  | banned_users => []
  | banned_ips => []
  | communities => .empty
  | channels => .empty
  | message => .empty
  | control_message => ()

end SqlTable

/-- The database of the server, as far as its tables have been created. -/
abbrev Catalog := Catalogue SqlTable.Contents

namespace Tables

def contents (t : Tables) : (T : SqlTable) → T.Contents
  | .users => t.users
  | .banned_users => t.banned_users
  | .banned_ips => t.banned_ips
  | .communities => t.communities
  | .channels => t.channels
  | .message => t.message
  | .control_message => ()

def ofContents (f : (T : SqlTable) → T.Contents) : Tables :=
  ⟨f .users, f .banned_users, f .banned_ips, f .communities, f .channels, f .message⟩

@[simp] theorem contents_ofContents (f : (T : SqlTable) → T.Contents) :
    (ofContents f).contents = f := by
  funext T
  cases T <;> rfl

/-- All tables are there. -/
def catalogue (t : Tables) : Catalog := fun T ↦ some (t.contents T)

/-- Without the rows of some tables. -/
def emptied (S : List SqlTable) (t : Tables) : Tables :=
  ofContents fun T ↦ if T ∈ S then T.new else t.contents T

end Tables

namespace Catalog

/-- What is stored. A table that is not there stores nothing. -/
def stored (k : Catalog) : Tables := .ofContents (k.filled SqlTable.new)

theorem stored_drop (S : List SqlTable) (k : Catalog) :
    stored (fun T ↦ if T ∈ S then none else k T) = (stored k).emptied S := by
  rw [stored, Tables.emptied, stored, Tables.contents_ofContents]
  congr 1
  funext T
  rw [Catalogue.filled, Catalogue.filled]
  split <;> rfl

theorem stored_create (S : List SqlTable) (k : Catalog) :
    stored (fun T ↦ if T ∈ S then some (k.filled SqlTable.new T) else k T) = stored k := by
  rw [stored, stored]
  congr 1
  funext T
  rw [Catalogue.filled, Catalogue.filled]
  split <;> rfl

end Catalog

/-! ## Scripts -/

namespace DBPostgres

/-- The tables that `clear` drops. -/
def dropped : List SqlTable :=
  [.message, .control_message, .channels, .communities, .banned_users, .banned_ips, .users]

/-- The tables that `validate` creates. -/
def created : List SqlTable :=
  [.users, .banned_users, .banned_ips, .communities, .channels, .message, .control_message]

def clear : List (Ddl SqlTable) := dropped.map .drop

def validate : List (Ddl SqlTable) := created.map .create

/-- Send the statements of a script one after the other. The first one that is refused raises. -/
abbrev execute (script : List (Ddl SqlTable)) (k : Catalog) : Bool × Catalog :=
  Catalogue.run SqlTable.refs SqlTable.new script k

theorem execute_append {script script' : List (Ddl SqlTable)} {k k' : Catalog}
    (h : execute script k = (true, k')) :
    execute (script ++ script') k = execute script' k' := Catalogue.run_append _ _ k h

theorem dropped_dependentsFirst : DependentsFirst SqlTable.refs [] dropped := by
  refine ⟨?_, ?_, ?_, ?_, ?_, ?_, ?_, trivial⟩ <;>
    · intro U hU
      cases U <;> simp [SqlTable.refs] at hU ⊢

theorem created_referencesFirst : ReferencesFirst SqlTable.refs [] created := by
  refine ⟨?_, ?_, ?_, ?_, ?_, ?_, ?_, trivial⟩ <;> decide

/-- **A `clear` that is cut off** has dropped what it has come to. -/
theorem execute_take_clear (n : ℕ) (k : Catalog) :
    execute (clear.take n) k = (true, fun T ↦ if T ∈ dropped.take n then none else k T) := by
  rw [clear, ← List.map_take]
  exact Catalogue.run_drops (dropped_dependentsFirst.take n) (by simp)

/-- **A `validate` that is cut off** has added tables without rows. -/
theorem execute_take_validate (n : ℕ) (k : Catalog) : execute (validate.take n) k =
    (true, fun T ↦ if T ∈ created.take n then some (k.filled SqlTable.new T) else k T) := by
  rw [validate, ← List.map_take]
  exact Catalogue.run_creates (created_referencesFirst.take n) (by simp)

theorem mem_dropped (T : SqlTable) : T ∈ dropped := by
  cases T <;> decide

theorem mem_created (T : SqlTable) : T ∈ created := by
  cases T <;> decide

theorem execute_clear (k : Catalog) : execute clear k = (true, fun _ ↦ none) := by
  have h := execute_take_clear dropped.length k
  rw [clear, ← List.map_take, List.take_length] at h
  rw [clear, h]
  simp [mem_dropped]

theorem execute_validate (k : Catalog) : execute validate k = (true, k.stored.catalogue) := by
  have h := execute_take_validate created.length k
  rw [validate, ← List.map_take, List.take_length] at h
  rw [validate, h]
  simp only [mem_created, if_true]
  congr 1
  funext T
  cases T <;> rfl

end DBPostgres

/-! ## What is left -/

namespace Tables

variable {t : Tables} {S : List SqlTable}

@[simp] theorem emptied_nil : t.emptied [] = t := by
  simp only [emptied, List.not_mem_nil, if_false]
  rfl

theorem refer_emptied (hS : ∀ T U, U ∈ SqlTable.refs T → U ∈ S → T ∈ S) {T U : SqlTable}
    {ρ μ : Type} {f : T.Contents → List ρ} {g : U.Contents → List μ} {P : ρ → μ → Prop}
    (hnew : f T.new = []) (hU : U ∈ T.refs)
    (h : ∀ r ∈ f (t.contents T), ∃ u ∈ g (t.contents U), P r u) :
    ∀ r ∈ f (if T ∈ S then T.new else t.contents T),
      ∃ u ∈ g (if U ∈ S then U.new else t.contents U), P r u := by
  intro r hr
  by_cases hT : T ∈ S
  · rw [if_pos hT, hnew] at hr
    cases hr
  · rw [if_neg hT] at hr
    rw [if_neg fun hmem ↦ hT (hS T U hU hmem)]
    exact h r hr

theorem References.emptied (hS : ∀ T U, U ∈ SqlTable.refs T → U ∈ S → T ∈ S) (h : t.References) :
    (t.emptied S).References where
  banned_user := refer_emptied hS (T := .banned_users) (U := .users) (f := id)
    (g := Serial.rows) rfl (by decide) h.banned_user
  community_admin := refer_emptied hS (T := .communities) (U := .users) (f := Serial.rows)
    (g := Serial.rows) rfl (by decide) h.community_admin
  channel_community := refer_emptied hS (T := .channels) (U := .communities) (f := Serial.rows)
    (g := Serial.rows) rfl (by decide) h.channel_community
  channel_admin := refer_emptied hS (T := .channels) (U := .users) (f := Serial.rows)
    (g := Serial.rows) rfl (by decide) h.channel_admin
  message_user := refer_emptied hS (T := .message) (U := .users) (f := Serial.rows)
    (g := Serial.rows) rfl (by decide) h.message_user
  message_channel := refer_emptied hS (T := .message) (U := .channels) (f := Serial.rows)
    (g := Serial.rows) rfl (by decide) h.message_channel

/-- **Constraints survive**, if a table is only emptied along with those that refer to it. -/
theorem Valid.emptied {b : Backend} (hS : ∀ T U, U ∈ SqlTable.refs T → U ∈ S → T ∈ S)
    (h : t.Valid b) : (t.emptied S).Valid b := by
  refine ⟨?_, ?_, ?_, ?_, fun hb ↦ (h.references hb).emptied hS⟩
  · have husers : (t.emptied S).users = if SqlTable.users ∈ S then .empty else t.users := rfl
    rw [husers]
    split
    · exact List.nodup_nil
    · exact h.users_uname
  · have hips : (t.emptied S).banned_ips = if SqlTable.banned_ips ∈ S then [] else t.banned_ips :=
      rfl
    rw [hips]
    split
    · exact List.nodup_nil
    · exact h.banned_ips_ip
  · have hcommunities : (t.emptied S).communities =
        if SqlTable.communities ∈ S then .empty else t.communities := rfl
    rw [hcommunities]
    split
    · exact List.nodup_nil
    · exact h.communities_name
  · have hchannels : (t.emptied S).channels =
        if SqlTable.channels ∈ S then .empty else t.channels := rfl
    rw [hchannels]
    split
    · exact List.nodup_nil
    · exact h.channels_name

end Tables

end Wrongthink
