import Iso8583Switch.Engine.HotCaches

/-!
# What the caches have after a poll

A poll of the sanctions leaves exactly the blocking rows.  A poll of the fees or of the
accounts leaves what was there before as well: a key that was live in an earlier poll of
the table stays (`contains_of_polled`), retired or not.

So after every poll the cache has the live rows of its table and no others exactly where no
key of an earlier poll is missing from a later one.
-/

namespace Iso8583Switch

open TableCache

/-! ## Tables -/

inductive CachedTable where
  | sanctionsList
  | feeMatrix
  | chartOfAccounts
deriving DecidableEq

def TablePoll.table : TablePoll → CachedTable
  | .sanctionsList _ => .sanctionsList
  | .feeMatrix _ => .feeMatrix
  | .chartOfAccounts _ => .chartOfAccounts

/-- Whether a cache has a key. -/
def HotCaches.Contains (caches : HotCaches) (key : String) : CachedTable → Prop
  | .sanctionsList => (caches.compliance.cache.get key).isSome = true
  | .feeMatrix => (caches.ledger.feeMatrix.get key).isSome = true
  | .chartOfAccounts => (caches.ledger.chartOfAccounts.get key).isSome = true

/-- The last live fee of every key fits its 32 bits. -/
def TablePoll.FeesFit : TablePoll → Prop
  | .feeMatrix rows => ∀ key, lastValue (liveFees rows) key ≠ some none
  | _ => True

section Letters

variable (toLowercase toUppercase : String → String)

/-- The keys of the rows that a poll reads. -/
def TablePoll.keys : TablePoll → List String
  | .sanctionsList rows => (blockingRows toLowercase toUppercase rows).map Prod.fst
  | .feeMatrix rows => (liveFees rows).map Prod.fst
  | .chartOfAccounts rows => (liveAccounts rows).map Prod.fst

/-- The cache has the live rows of the table, the last one for each key, and no others. -/
def HotCaches.FollowsPoll (caches : HotCaches) : TablePoll → Prop
  | .sanctionsList rows =>
      Follows caches.compliance.cache (blockingRows toLowercase toUppercase rows)
  | .feeMatrix rows => Follows caches.ledger.feeMatrix (liveFees rows)
  | .chartOfAccounts rows => Follows caches.ledger.chartOfAccounts (liveAccounts rows)

end Letters

/-! ## One poll -/

namespace HotCaches

variable {toLowercase toUppercase : String → String} {caches : HotCaches} {p q : TablePoll}

/-- The sanctions are replaced. -/
theorem followsPoll_sanctionsList (h : p.table = .sanctionsList) (caches : HotCaches) :
    (caches.poll toLowercase toUppercase p).FollowsPoll toLowercase toUppercase p := by
  cases p with
  | sanctionsList rows => exact follows_replaceBy _ (lastValue_map_ne _ _ _)
  | feeMatrix rows => cases h
  | chartOfAccounts rows => cases h

/-- The others are written over what was there. -/
theorem followsPoll_iff (h : p.table ≠ .sanctionsList) (caches : HotCaches) :
    (caches.poll toLowercase toUppercase p).FollowsPoll toLowercase toUppercase p ↔
      p.FeesFit ∧ ∀ key, caches.Contains key p.table → key ∈ p.keys toLowercase toUppercase := by
  cases p with
  | sanctionsList rows => exact absurd rfl h
  | feeMatrix rows => exact follows_upsertAll_iff _ _
  | chartOfAccounts rows =>
      refine (follows_upsertAll_iff _ _).trans (and_congr_left fun _ => ?_)
      exact iff_of_true (lastValue_map_ne _ _ _) trivial

/-- A poll leaves the caches of the other tables alone. -/
theorem followsPoll_of_other (h : q.table ≠ p.table)
    (hp : caches.FollowsPoll toLowercase toUppercase p) :
    (caches.poll toLowercase toUppercase q).FollowsPoll toLowercase toUppercase p := by
  cases q <;> cases p <;> first | exact absurd rfl h | exact hp

theorem contains_of_follows (hp : caches.FollowsPoll toLowercase toUppercase p) {key : String}
    (hkey : key ∈ p.keys toLowercase toUppercase) : caches.Contains key p.table := by
  cases p with
  | sanctionsList rows => exact (Follows.isSome_get_iff hp key).mpr hkey
  | feeMatrix rows => exact (Follows.isSome_get_iff hp key).mpr hkey
  | chartOfAccounts rows => exact (Follows.isSome_get_iff hp key).mpr hkey

/-- A key stays, unless the sanctions are polled. -/
theorem contains_poll {table : CachedTable} (htable : table ≠ .sanctionsList) {key : String}
    (h : caches.Contains key table) :
    (caches.poll toLowercase toUppercase q).Contains key table := by
  cases table with
  | sanctionsList => exact absurd rfl htable
  | feeMatrix =>
      cases q with
      | sanctionsList rows => exact h
      | feeMatrix rows => exact isSome_get_upsertAll h _
      | chartOfAccounts rows => exact h
  | chartOfAccounts =>
      cases q with
      | sanctionsList rows => exact h
      | feeMatrix rows => exact h
      | chartOfAccounts rows => exact isSome_get_upsertAll h _

/-- A key was there or is polled. -/
theorem contains_poll_cases {table : CachedTable} (htable : table ≠ .sanctionsList) {key : String}
    (h : (caches.poll toLowercase toUppercase q).Contains key table) :
    caches.Contains key table ∨
      (q.table = table ∧ key ∈ q.keys toLowercase toUppercase) := by
  cases table with
  | sanctionsList => exact absurd rfl htable
  | feeMatrix =>
      cases q with
      | sanctionsList rows => exact .inl h
      | feeMatrix rows => exact (isSome_or_mem h).imp id fun hmem => ⟨rfl, hmem⟩
      | chartOfAccounts rows => exact .inl h
  | chartOfAccounts =>
      cases q with
      | sanctionsList rows => exact .inl h
      | feeMatrix rows => exact .inl h
      | chartOfAccounts rows => exact (isSome_or_mem h).imp id fun hmem => ⟨rfl, hmem⟩

/-! ## Runs -/

theorem run_concat (polls : List TablePoll) (p : TablePoll) :
    run toLowercase toUppercase (polls ++ [p]) =
      (run toLowercase toUppercase polls).poll toLowercase toUppercase p := by
  rw [run, List.foldl_append]
  rfl

/-- What the polls up to some point leave in the caches is what is in the tables. -/
def UpToDate (toLowercase toUppercase : String → String) (polls : List TablePoll) : Prop :=
  ∀ earlier p later, earlier ++ p :: later <+: polls → (∀ q ∈ later, q.table ≠ p.table) →
    (run toLowercase toUppercase (earlier ++ p :: later)).FollowsPoll toLowercase toUppercase p

/-- No fee or account is missing from a later poll of its table. -/
def NothingRetired (toLowercase toUppercase : String → String) (polls : List TablePoll) : Prop :=
  ∀ earlier p, earlier ++ [p] <+: polls → p.table ≠ .sanctionsList →
    p.FeesFit ∧ ∀ q ∈ earlier, q.table = p.table →
      ∀ key ∈ q.keys toLowercase toUppercase, key ∈ p.keys toLowercase toUppercase

theorem polled_of_contains {polls : List TablePoll} {table : CachedTable}
    (htable : table ≠ .sanctionsList) {key : String}
    (h : (run toLowercase toUppercase polls).Contains key table) :
    ∃ q ∈ polls, q.table = table ∧ key ∈ q.keys toLowercase toUppercase := by
  induction polls using List.reverseRecOn with
  | nil =>
      cases table with
      | sanctionsList => exact absurd rfl htable
      | feeMatrix => cases h
      | chartOfAccounts => cases h
  | append_singleton polls p ih =>
      rw [run_concat] at h
      rcases contains_poll_cases htable h with h | ⟨hp, hkey⟩
      · obtain ⟨q, hq, hkey⟩ := ih h
        exact ⟨q, List.mem_append_left _ hq, hkey⟩
      · exact ⟨p, List.mem_append_right _ List.mem_cons_self, hp, hkey⟩

/-- A key that was found live stays in its cache. -/
theorem contains_of_polled {polls : List TablePoll} (h : UpToDate toLowercase toUppercase polls)
    (hq : q ∈ polls) (htable : q.table ≠ .sanctionsList) {key : String}
    (hkey : key ∈ q.keys toLowercase toUppercase) :
    (run toLowercase toUppercase polls).Contains key q.table := by
  induction polls using List.reverseRecOn with
  | nil => cases hq
  | append_singleton polls p ih =>
      rcases List.mem_append.mp hq with hold | hlast
      · rw [run_concat]
        refine contains_poll htable (ih (fun earlier p later hpart => ?_) hold)
        exact h earlier p later (hpart.trans (List.prefix_append _ _))
      · rw [List.mem_singleton.mp hlast] at hkey ⊢
        exact contains_of_follows (h polls p [] (List.prefix_refl _) (List.forall_mem_nil _)) hkey

theorem followsPoll_of_later {later : List TablePoll} (h : ∀ q ∈ later, q.table ≠ p.table)
    (hp : caches.FollowsPoll toLowercase toUppercase p) :
    (later.foldl (poll toLowercase toUppercase) caches).FollowsPoll toLowercase toUppercase p := by
  induction later generalizing caches with
  | nil => exact hp
  | cons q later ih =>
      exact ih (fun q hq => h q (List.mem_cons_of_mem _ hq))
        (followsPoll_of_other (h q List.mem_cons_self) hp)

end HotCaches

open HotCaches in
/-- The caches are up to date in every run of polls exactly where no live key of a fee or an
account is missing from a later poll and the flat fees fit. -/
theorem hot_caches_follow_iff (toLowercase toUppercase : String → String)
    (polls : List TablePoll) :
    HotCaches.UpToDate toLowercase toUppercase polls ↔
      HotCaches.NothingRetired toLowercase toUppercase polls := by
  constructor
  · intro h earlier p hpart htable
    have hfollows := h earlier p [] hpart (List.forall_mem_nil _)
    rw [run_concat, followsPoll_iff htable] at hfollows
    refine ⟨hfollows.1, fun q hq hsame key hkey => hfollows.2 key ?_⟩
    have hearlier : UpToDate toLowercase toUppercase earlier := fun e p l hpre =>
      h e p l (hpre.trans ((List.prefix_append _ _).trans hpart))
    rw [← hsame] at htable ⊢
    exact contains_of_polled hearlier hq htable hkey
  · intro h earlier p later hpart hlater
    have hhead : earlier ++ [p] <+: polls := by
      rw [List.append_cons] at hpart
      exact (List.prefix_append _ _).trans hpart
    have hfollows : (run toLowercase toUppercase (earlier ++ [p])).FollowsPoll
        toLowercase toUppercase p := by
      rw [run_concat]
      by_cases htable : p.table = .sanctionsList
      · exact followsPoll_sanctionsList htable _
      · obtain ⟨hfit, hgrow⟩ := h earlier p hhead htable
        refine (followsPoll_iff htable _).mpr ⟨hfit, fun key hkey => ?_⟩
        obtain ⟨q, hq, hsame, hlive⟩ := polled_of_contains htable hkey
        exact hgrow q hq hsame key hlive
    rw [List.append_cons, run, List.foldl_append]
    exact followsPoll_of_later hlater hfollows

/-- The default fee, live in one poll and retired in the next. -/
def retiredFee : List TablePoll :=
  [.feeMatrix [⟨none, none, 0.015, 10, 0.02, true⟩],
    .feeMatrix [⟨none, none, 0.015, 10, 0.02, false⟩]]

theorem retired_fee_stays : ¬ ∀ (toLowercase toUppercase : String → String)
    (polls : List TablePoll), HotCaches.UpToDate toLowercase toUppercase polls := by
  intro h
  have hfollows :=
    h id id retiredFee [_] _ [] (List.prefix_refl _) (List.forall_mem_nil _) "DEFAULT"
  cases hfollows

end Iso8583Switch
