import Mathlib.Data.List.Nodup
import Mathlib.Logic.Function.Basic
import Mathlib.Logic.Relation

/-!
# Requests and answers

A caller asks under numbers of its own, a service answers what was asked, and the caller
reads messages.  A `Dialogue` is what the two have come to.  Its steps are atomic: nothing is
asked twice under one number, an answer fits its request and is the only one, and a message
is the form of an answer that has not been read before.

So much can be said of every dialogue (`Ordered`), and no step takes back what another one
has done (`Later`).  A caller that numbers its requests and does not ask again before it has
read reads the answers in the order of its requests (`InOrder`).
-/

open Relation Function

variable {ι ρ α μ : Type*}

/-- What the answers have to do with the requests, and the messages with the answers. -/
structure Service (ρ α μ : Type*) where
  Fits : ρ → α → Prop
  form : α → μ

/-- `read` is in the order in which the caller has read. -/
structure Dialogue (ι ρ α μ : Type*) where
  asked : ι → Option ρ
  answered : ι → Option α
  read : List (ι × μ)

namespace Dialogue

def empty : Dialogue ι ρ α μ := ⟨fun _ => none, fun _ => none, []⟩

variable {v : Service ρ α μ} {d d' d'' : Dialogue ι ρ α μ}

/-! ## What holds of a dialogue -/

structure Ordered (v : Service ρ α μ) (d : Dialogue ι ρ α μ) : Prop where
  answered : ∀ {n reply}, d.answered n = some reply →
    ∃ request, d.asked n = some request ∧ v.Fits request reply
  read : ∀ {n msg}, (n, msg) ∈ d.read → ∃ reply, d.answered n = some reply ∧ msg = v.form reply
  once : (d.read.map Prod.fst).Nodup

theorem ordered_empty : Ordered v (empty : Dialogue ι ρ α μ) where
  answered h := by cases h
  read h := by cases h
  once := .nil

/-- What the caller reads is made of an answer that fits. -/
theorem Ordered.reads (h : Ordered v d) {n : ι} {msg : μ} (hread : (n, msg) ∈ d.read) :
    ∃ request reply, d.asked n = some request ∧ v.Fits request reply ∧ msg = v.form reply := by
  obtain ⟨reply, hanswered, hform⟩ := h.read hread
  obtain ⟨request, hasked, hfits⟩ := h.answered hanswered
  exact ⟨request, reply, hasked, hfits, hform⟩

/-- What stays of a dialogue. -/
structure Later (d d' : Dialogue ι ρ α μ) : Prop where
  asked : ∀ {n request}, d.asked n = some request → d'.asked n = some request
  answered : ∀ {n reply}, d.answered n = some reply → d'.answered n = some reply
  read : d.read <+: d'.read

theorem Later.refl (d : Dialogue ι ρ α μ) : Later d d := ⟨id, id, List.prefix_refl _⟩

theorem Later.trans (h : Later d d') (h' : Later d' d'') : Later d d'' :=
  ⟨fun hn => h'.asked (h.asked hn), fun hn => h'.answered (h.answered hn), h.read.trans h'.read⟩

/-! ## The steps -/

variable [DecidableEq ι]

inductive Step (v : Service ρ α μ) (d : Dialogue ι ρ α μ) : Dialogue ι ρ α μ → Prop where
  | ask {n : ι} (request : ρ) (hfresh : d.asked n = none) :
      Step v d { d with asked := update d.asked n (some request) }
  | answer {n : ι} {request : ρ} (reply : α) (hasked : d.asked n = some request)
      (hfresh : d.answered n = none) (hfits : v.Fits request reply) :
      Step v d { d with answered := update d.answered n (some reply) }
  | read {n : ι} {reply : α} (hanswered : d.answered n = some reply)
      (hfresh : n ∉ d.read.map Prod.fst) :
      Step v d { d with read := d.read ++ [(n, v.form reply)] }

/-- A fresh number takes nothing from the others. -/
theorem update_of_none {β : Type*} {f : ι → Option β} {n m : ι} {b c : β} (hfresh : f n = none)
    (h : f m = some c) : update f n (some b) m = some c := by
  have hne : m ≠ n := by
    rintro rfl
    cases hfresh.symm.trans h
  rwa [update_of_ne hne]

theorem Ordered.step (h : Ordered v d) (hstep : Step v d d') : Ordered v d' := by
  cases hstep with
  | @ask n request hfresh =>
      refine ⟨fun {m reply} hreply => ?_, h.read, h.once⟩
      obtain ⟨request', hasked, hfits⟩ := h.answered hreply
      exact ⟨request', update_of_none hfresh hasked, hfits⟩
  | @answer n request reply hasked hfresh hfits =>
      refine ⟨fun {m reply'} hreply => ?_, fun {m msg} hread => ?_, h.once⟩
      · dsimp only at hreply
        rcases eq_or_ne m n with rfl | hne
        · rw [update_self, Option.some_inj] at hreply
          exact ⟨request, hasked, hreply ▸ hfits⟩
        · rw [update_of_ne hne] at hreply
          exact h.answered hreply
      · obtain ⟨reply', hreply, hform⟩ := h.read hread
        exact ⟨reply', update_of_none hfresh hreply, hform⟩
  | @read n reply hanswered hfresh =>
      refine ⟨h.answered, fun {m msg} hread => ?_, ?_⟩
      · rcases List.mem_append.mp hread with hold | hnew
        · exact h.read hold
        · cases List.mem_singleton.mp hnew
          exact ⟨reply, hanswered, rfl⟩
      · rw [List.map_append]
        exact h.once.append (List.nodup_singleton n) (by simpa using hfresh)

theorem Step.later (hstep : Step v d d') : Later d d' := by
  cases hstep with
  | ask request hfresh => exact ⟨update_of_none hfresh, id, List.prefix_refl _⟩
  | answer reply _ hfresh _ => exact ⟨id, update_of_none hfresh, List.prefix_refl _⟩
  | read => exact ⟨id, id, List.prefix_append _ _⟩

/-- The runs of a dialogue. -/
abbrev Run (v : Service ρ α μ) : Dialogue ι ρ α μ → Dialogue ι ρ α μ → Prop :=
  ReflTransGen (Step v)

theorem Ordered.run (h : Ordered v d) (hrun : Run v d d') : Ordered v d' := by
  induction hrun with
  | refl => exact h
  | tail _ hstep ih => exact ih.step hstep

theorem later_of_run (hrun : Run v d d') : Later d d' := by
  induction hrun with
  | refl => exact .refl d
  | tail _ hstep ih => exact ih.trans hstep.later

/-! ## A caller that waits -/

section Waiting

variable {v : Service ρ α μ} {d d' : Dialogue Nat ρ α μ}

/-- The caller has read the answers to its first requests, in their order. -/
def InOrder (d : Dialogue Nat ρ α μ) : Prop := d.read.map Prod.fst = List.range d.read.length

theorem inOrder_empty : InOrder (empty : Dialogue Nat ρ α μ) := rfl

/-- The number that is read next is the first one that has not been read, if no later one has
been asked. -/
theorem InOrder.step (h : InOrder d) (hordered : Ordered v d) (hstep : Step v d d')
    (hasked : ∀ n, (d.asked n).isSome = true → n ≤ d.read.length) : InOrder d' := by
  cases hstep with
  | ask => exact h
  | answer => exact h
  | @read n reply hanswered hfresh =>
      obtain ⟨request, hn, -⟩ := hordered.answered hanswered
      have hle := hasked n (by rw [hn]; rfl)
      rw [h, List.mem_range] at hfresh
      obtain rfl : n = d.read.length := by omega
      rw [InOrder, List.map_append, h, List.length_append, List.length_singleton, List.range_succ]
      rfl

theorem InOrder.run (h : InOrder d) (hordered : Ordered v d) (hrun : Run v d d')
    (hasked : ∀ n, (d'.asked n).isSome = true → n ≤ d.read.length) : InOrder d' := by
  induction hrun with
  | refl => exact h
  | @tail e d' hrun hstep ih =>
      -- What has been asked by then is asked in the end.
      have hbefore (n : Nat) (hn : (e.asked n).isSome = true) : n ≤ d.read.length := by
        obtain ⟨request, hrequest⟩ := Option.isSome_iff_exists.mp hn
        exact hasked n (by rw [hstep.later.asked hrequest]; rfl)
      have hlonger := (later_of_run hrun).read.length_le
      exact (ih hbefore).step (hordered.run hrun) hstep fun n hn =>
        Nat.le_trans (hbefore n hn) hlonger

/-- What is read at a place is made of the answer to the request with that number. -/
theorem InOrder.reads (h : InOrder d) (hordered : Ordered v d) {m : Nat} {msg : μ}
    (hmsg : (d.read.map Prod.snd)[m]? = some msg) :
    ∃ request reply, d.asked m = some request ∧ v.Fits request reply ∧ msg = v.form reply := by
  rw [List.getElem?_map] at hmsg
  obtain ⟨⟨n, _⟩, hread, rfl⟩ := Option.map_eq_some_iff.mp hmsg
  have hnumber : (d.read.map Prod.fst)[m]? = some n := by
    rw [List.getElem?_map, hread]
    rfl
  rw [h] at hnumber
  obtain ⟨-, rfl⟩ : m < d.read.length ∧ m = n := by
    simpa [List.getElem?_eq_some_iff] using hnumber
  exact hordered.reads (List.mem_of_getElem? hread)

end Waiting

end Dialogue
