import Mathlib.Data.List.AList
import Mathlib.Data.Finset.Basic
import Mathlib.Logic.Function.Basic
import Mathlib.Order.Basic

/-!
# A keyspace with expiry times

The keys of a store such as Redis: each key that exists holds a value, and may have a time at
which it expires.  A write keeps the expiry of a key that exists, creates a key without one,
and removes a container it empties, its expiry with it; an expiry is given by a command of its
own.

* `ExpiresBy limit` — every key that exists expires at `limit` or before.
* `ExpiresBy.elapse_eq_none` — at `limit` there is then no key left.
* `ExpiresBy.write`, `not_expiring_write` — a write loses that exactly by creating a key.
-/

namespace MediaPlayer
namespace Library

/-- A key that exists: its value, and when it expires. -/
structure Entry (τ ν : Type*) where
  value : ν
  expiry : Option τ

/-- The keys `κ`, each with values of its own kind. -/
abbrev Keyspace (τ κ : Type*) (ν : κ → Type*) := (k : κ) → Option (Entry τ (ν k))

namespace Keyspace

variable {τ κ : Type*} {ν : κ → Type*}

/-- What a key holds. -/
def value (s : Keyspace τ κ ν) (k : κ) : Option (ν k) := (s k).map Entry.value

/-- `DEL`. -/
def delete [DecidableEq κ] (s : Keyspace τ κ ν) (keys : List κ) : Keyspace τ κ ν :=
  fun k => if k ∈ keys then none else s k

/-- A command that writes a container: what is left of what was there. -/
def write [DecidableEq κ] (s : Keyspace τ κ ν) (k : κ) (f : Option (ν k) → Option (ν k)) :
    Keyspace τ κ ν :=
  Function.update s k ((f (s.value k)).map fun value => ⟨value, (s k).bind Entry.expiry⟩)

/-- `SET` with an expiry. -/
def setEx [DecidableEq κ] (s : Keyspace τ κ ν) (k : κ) (value : ν k) (time : τ) :
    Keyspace τ κ ν :=
  Function.update s k (some ⟨value, some time⟩)

/-- `EXPIRE`; of a key that does not exist, nothing. -/
def expire [DecidableEq κ] (s : Keyspace τ κ ν) (k : κ) (time : τ) : Keyspace τ κ ν :=
  Function.update s k ((s k).map fun entry => { entry with expiry := some time })

/-- What is left at a time: a key goes when its expiry comes. -/
def elapse [LE τ] [DecidableLE τ] (s : Keyspace τ κ ν) (now : τ) : Keyspace τ κ ν :=
  fun k => (s k).filter fun entry => !entry.expiry.any fun time => decide (time ≤ now)

/-- Every key that exists has an expiry time. -/
def Expiring (s : Keyspace τ κ ν) : Prop :=
  ∀ k entry, s k = some entry → ∃ time, entry.expiry = some time

/-- Every key that exists expires at a time or before. -/
def ExpiresBy [LE τ] (s : Keyspace τ κ ν) (limit : τ) : Prop :=
  ∀ k entry, s k = some entry → ∃ time, entry.expiry = some time ∧ time ≤ limit

/-! ## Values -/

section Values

variable [DecidableEq κ] {s : Keyspace τ κ ν} {k : κ} {f : Option (ν k) → Option (ν k)}

@[simp] theorem value_delete (keys : List κ) (j : κ) :
    (s.delete keys).value j = if j ∈ keys then none else s.value j := by
  unfold value delete
  split <;> rfl

@[simp] theorem value_write : (s.write k f).value k = f (s.value k) := by
  have hentry : s.write k f k =
      (f (s.value k)).map fun value => ⟨value, (s k).bind Entry.expiry⟩ := Function.update_self ..
  rw [value, hentry, Option.map_map]
  exact Option.map_id'

theorem value_write_of_ne {j : κ} (hj : j ≠ k) : (s.write k f).value j = s.value j := by
  unfold value write
  rw [Function.update_of_ne hj]

@[simp] theorem value_setEx (value : ν k) (time : τ) :
    (s.setEx k value time).value k = some value := by
  unfold Keyspace.value setEx
  rw [Function.update_self]
  rfl

theorem value_setEx_of_ne {j : κ} (hj : j ≠ k) (value : ν k) (time : τ) :
    (s.setEx k value time).value j = s.value j := by
  unfold Keyspace.value setEx
  rw [Function.update_of_ne hj]

/-- An expiry changes no value. -/
@[simp] theorem value_expire (time : τ) (j : κ) : (s.expire k time).value j = s.value j := by
  unfold value expire
  by_cases hj : j = k
  · subst hj
    rw [Function.update_self, Option.map_map]
    rfl
  · rw [Function.update_of_ne hj]

end Values

/-! ## Expiry times -/

section Expiry

variable [Preorder τ] {s : Keyspace τ κ ν} {limit : τ}

/-- A store without keys. -/
theorem expiresBy_none (limit : τ) : ExpiresBy (fun _ => none : Keyspace τ κ ν) limit := nofun

theorem ExpiresBy.mono (hs : s.ExpiresBy limit) {later : τ} (hle : limit ≤ later) :
    s.ExpiresBy later := by
  intro k entry hentry
  obtain ⟨time, htime, hlimit⟩ := hs k entry hentry
  exact ⟨time, htime, hlimit.trans hle⟩

theorem ExpiresBy.elapse [DecidableLE τ] (hs : s.ExpiresBy limit) (now : τ) :
    (s.elapse now).ExpiresBy limit := by
  intro k entry hentry
  exact hs k entry (Option.filter_eq_some_iff.mp hentry).1

/-- When the limit has come, no key is left. -/
theorem ExpiresBy.elapse_eq_none [DecidableLE τ] (hs : s.ExpiresBy limit) {now : τ}
    (hnow : limit ≤ now) (k : κ) : s.elapse now k = none := by
  unfold Keyspace.elapse
  cases hentry : s k with
  | none => rfl
  | some entry =>
      obtain ⟨time, htime, hlimit⟩ := hs k entry hentry
      have hle : time ≤ now := hlimit.trans hnow
      simp [htime, hle]

variable [DecidableEq κ] {k : κ}

theorem ExpiresBy.delete (hs : s.ExpiresBy limit) (keys : List κ) :
    (s.delete keys).ExpiresBy limit := by
  intro j entry hentry
  obtain ⟨-, hold⟩ := Option.ite_none_left_eq_some.mp hentry
  exact hs j entry hold

theorem ExpiresBy.setEx (hs : s.ExpiresBy limit) (value : ν k) :
    (s.setEx k value limit).ExpiresBy limit := by
  intro j entry hentry
  unfold Keyspace.setEx at hentry
  by_cases hj : j = k
  · subst hj
    rw [Function.update_self] at hentry
    obtain rfl := Option.some.inj hentry
    exact ⟨limit, rfl, le_rfl⟩
  · rw [Function.update_of_ne hj] at hentry
    exact hs j entry hentry

/-- A write that is followed by an expiry may create its key. -/
theorem ExpiresBy.write_expire (hs : s.ExpiresBy limit) (f : Option (ν k) → Option (ν k)) :
    ((s.write k f).expire k limit).ExpiresBy limit := by
  intro j entry hentry
  unfold expire write at hentry
  by_cases hj : j = k
  · subst hj
    rw [Function.update_self] at hentry
    obtain ⟨written, -, rfl⟩ := Option.map_eq_some_iff.mp hentry
    exact ⟨limit, rfl, le_rfl⟩
  · rw [Function.update_of_ne hj, Function.update_of_ne hj] at hentry
    exact hs j entry hentry

/-- A write to a key that exists, or that creates none, keeps the expiry times. -/
theorem ExpiresBy.write (hs : s.ExpiresBy limit) {f : Option (ν k) → Option (ν k)}
    (hkeeps : s k ≠ none ∨ f none = none) : (s.write k f).ExpiresBy limit := by
  intro j entry hentry
  unfold Keyspace.write at hentry
  by_cases hj : j = k
  · subst hj
    rw [Function.update_self] at hentry
    obtain ⟨written, hwritten, rfl⟩ := Option.map_eq_some_iff.mp hentry
    cases hold : s j with
    | none =>
        have hnone : f none = none := hkeeps.resolve_left (fun hne => hne hold)
        unfold value at hwritten
        rw [hold] at hwritten
        exact absurd (hnone.symm.trans hwritten) nofun
    | some before => exact hs j before hold
  · rw [Function.update_of_ne hj] at hentry
    exact hs j entry hentry

end Expiry

/-- A write that creates its key leaves it without an expiry time. -/
theorem not_expiring_write [DecidableEq κ] {s : Keyspace τ κ ν} {k : κ}
    {f : Option (ν k) → Option (ν k)} (hnone : s k = none) {created : ν k}
    (hcreated : f none = some created) : ¬(s.write k f).Expiring := by
  intro hexpiring
  have hentry : s.write k f k = some ⟨created, none⟩ := by
    unfold write value
    rw [Function.update_self, hnone]
    simp [hcreated]
  obtain ⟨time, htime⟩ := hexpiring k _ hentry
  exact absurd htime nofun

/-! ## Containers -/

/-- A list as a container: without items there is none. -/
def nonempty {α : Type*} (items : List α) : Option (List α) :=
  match items with
  | [] => none
  | item :: rest => some (item :: rest)

@[simp] theorem getD_nonempty {α : Type*} (items : List α) : (nonempty items).getD [] = items := by
  cases items <;> rfl

/-- `RPUSH`. -/
def rpush {α : Type*} (items : List α) (old : Option (List α)) : Option (List α) :=
  nonempty (old.getD [] ++ items)

/-- `LPUSH`. -/
def lpush {α : Type*} (item : α) (old : Option (List α)) : Option (List α) :=
  some (item :: old.getD [])

/-- `LPOP`. -/
def lpop {α : Type*} (old : Option (List α)) : Option (List α) :=
  old.bind fun items => nonempty items.tail

/-- `HSET`. -/
def hset {α β : Type*} [DecidableEq α] (field : α) (value : β)
    (old : Option (AList fun _ : α => β)) : Option (AList fun _ : α => β) :=
  some ((old.getD ∅).insert field value)

/-- `HDEL`. -/
def hdel {α β : Type*} [DecidableEq α] (fields : List α)
    (old : Option (AList fun _ : α => β)) : Option (AList fun _ : α => β) :=
  old.bind fun hash =>
    let left := fields.foldl (fun hash field => hash.erase field) hash
    if left.entries.isEmpty then none else some left

/-- `SADD`. -/
def sadd {α : Type*} [DecidableEq α] (member : α) (old : Option (Finset α)) : Option (Finset α) :=
  some (insert member (old.getD ∅))

theorem getD_lpop {α : Type*} (old : Option (List α)) :
    (lpop old).getD [] = (old.getD []).tail := by
  cases old with
  | none => rfl
  | some items => exact getD_nonempty items.tail

theorem lookup_foldl_erase {α β : Type*} [DecidableEq α] (fields : List α)
    (hash : AList fun _ : α => β) (field : α) :
    (fields.foldl (fun hash field => hash.erase field) hash).lookup field =
      if field ∈ fields then none else hash.lookup field := by
  induction fields generalizing hash with
  | nil => rfl
  | cons first rest ih =>
      rw [List.foldl_cons, ih]
      by_cases hfirst : field = first
      · subst hfirst
        simp
      · simp [hfirst, AList.lookup_erase_ne hfirst]

theorem lookup_hset {α β : Type*} [DecidableEq α] (field : α) (value : β)
    (old : Option (AList fun _ : α => β)) (j : α) :
    (hset field value old).bind (·.lookup j) =
      if j = field then some value else old.bind (·.lookup j) := by
  show ((old.getD ∅).insert field value).lookup j = _
  by_cases hj : j = field
  · subst hj
    rw [AList.lookup_insert, if_pos rfl]
  · rw [AList.lookup_insert_ne hj, if_neg hj]
    cases old <;> rfl

/-- The fields that are left are those that were not deleted. -/
theorem lookup_hdel {α β : Type*} [DecidableEq α] (fields : List α)
    (old : Option (AList fun _ : α => β)) (field : α) :
    (hdel fields old).bind (·.lookup field) =
      if field ∈ fields then none else old.bind (·.lookup field) := by
  cases old with
  | none => simp [hdel]
  | some hash =>
      simp only [hdel, Option.bind_some]
      rw [← lookup_foldl_erase]
      split
      · rename_i hempty
        have hnil : fields.foldl (fun hash field => hash.erase field) hash = ∅ :=
          AList.ext (List.isEmpty_iff.mp hempty)
        rw [hnil]
        rfl
      · rfl

end Keyspace

end Library
end MediaPlayer
