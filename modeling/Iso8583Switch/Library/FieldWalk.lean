import Iso8583Switch.Library.Text

/-!
# Messages with a presence bitmap

A message names the fields it carries in a bitmap and puts their bytes one after the
other.  A reader walks the numbers in order and reads a field where its bit is set.

`walk_stages` is the induction for such readers.  It takes the states that the walk
should be in before each number, so a field may be read in a way that depends on the
fields before it.
-/

namespace FieldWalk

variable {σ ε : Type}

/-! ## Steps that may fail -/

theorem ok_bind {α β : Type} (a : α) (f : α → Except ε β) : (Except.ok a >>= f) = f a := rfl

theorem ok_bind_eq {α β : Type} {x : Except ε α} {f : α → Except ε β} {b : β}
    (h : (x >>= f) = .ok b) : ∃ a, x = .ok a ∧ f a = .ok b := by
  cases x with
  | error e => cases h
  | ok a => exact ⟨a, rfl, h⟩

/-! ## Walks -/

/-- The bytes from an offset on. -/
def At (raw : Bytes) (offset : Nat) (rest : Bytes) : Prop :=
  ∃ before, raw = before ++ rest ∧ before.length = offset

theorem At.tail {raw bytes rest : Bytes} {offset : Nat} (h : At raw offset (bytes ++ rest)) :
    At raw (offset + bytes.length) rest := by
  obtain ⟨before, rfl, rfl⟩ := h
  exact ⟨before ++ bytes, (List.append_assoc _ _ _).symm, List.length_append⟩

theorem At.start (before rest : Bytes) : At (before ++ rest) before.length rest :=
  ⟨before, rfl, rfl⟩

/-- The fields of a message, by number. -/
abbrev Fields := List (Nat × Bytes)

def payload (fields : Fields) : Bytes := fields.flatMap Prod.snd

/-- Read the fields whose bit is set.  `read` gets the offset of its field and gives
the offset behind it. -/
def walk (present : Nat → Bool) (read : Nat → σ → Nat → Except ε (σ × Nat)) :
    List Nat → σ → Nat → Except ε (σ × Nat)
  | [], s, offset => .ok (s, offset)
  | k :: ks, s, offset =>
      if present k then
        match read k s offset with
        | .ok (s, offset) => walk present read ks s offset
        | .error e => .error e
      else walk present read ks s offset

theorem walk_append {present : Nat → Bool} {read : Nat → σ → Nat → Except ε (σ × Nat)}
    (ks ls : List Nat) (s : σ) (offset : Nat) :
    walk present read (ks ++ ls) s offset =
      match walk present read ks s offset with
      | .ok (s, offset) => walk present read ls s offset
      | .error e => .error e := by
  induction ks generalizing s offset with
  | nil => rfl
  | cons k ks ih =>
      rw [List.cons_append, walk, walk]
      split
      · cases read k s offset with
        | error e => rfl
        | ok p => exact ih p.1 p.2
      · exact ih s offset

/-- Walks that set the same bits and read the fields alike. -/
theorem walk_congr {present present' : Nat → Bool}
    {read read' : Nat → σ → Nat → Except ε (σ × Nat)} {ks : List Nat}
    (hpresent : ∀ k ∈ ks, present k = present' k)
    (hread : ∀ k ∈ ks, present k = true → read k = read' k) (s : σ) (offset : Nat) :
    walk present read ks s offset = walk present' read' ks s offset := by
  induction ks generalizing s offset with
  | nil => rfl
  | cons k ks ih =>
      have htail := ih (fun k' hk' => hpresent k' (List.mem_cons_of_mem _ hk'))
        fun k' hk' => hread k' (List.mem_cons_of_mem _ hk')
      rw [walk, walk, ← hpresent k List.mem_cons_self]
      split
      next hset =>
        rw [hread k List.mem_cons_self hset]
        cases read' k s offset with
        | error e => rfl
        | ok p => exact htail p.1 p.2
      next => exact htail s offset

/-- What the reader of every field keeps holds behind the walk. -/
theorem walk_keeps {present : Nat → Bool} {read : Nat → σ → Nat → Except ε (σ × Nat)}
    {P : σ → Prop} {ks : List Nat}
    (hread : ∀ k ∈ ks, ∀ s offset p, read k s offset = .ok p → P s → P p.1) {s : σ} {offset : Nat}
    {p : σ × Nat} (hwalk : walk present read ks s offset = .ok p) (hs : P s) : P p.1 := by
  induction ks generalizing s offset with
  | nil =>
      cases hwalk
      exact hs
  | cons k ks ih =>
      have htail := fun k' hk' => hread k' (List.mem_cons_of_mem _ hk')
      rw [walk] at hwalk
      split at hwalk
      · split at hwalk
        next s' offset' hk => exact ih htail hwalk (hread k List.mem_cons_self _ _ _ hk hs)
        next => cases hwalk
      · exact ih htail hwalk hs

/-- A reader that takes at least `need k` bytes for the field `k`, and none behind the
end, has taken them all behind the walk. -/
theorem walk_advances {present : Nat → Bool} {read : Nat → σ → Nat → Except ε (σ × Nat)}
    {need : Nat → Nat} {bound : Nat} {ks : List Nat}
    (hread : ∀ k ∈ ks, ∀ s offset p, read k s offset = .ok p → offset ≤ bound →
      offset + need k ≤ p.2 ∧ p.2 ≤ bound) {s : σ} {offset : Nat} {p : σ × Nat}
    (hwalk : walk present read ks s offset = .ok p) (hoffset : offset ≤ bound) :
    offset + (ks.map fun k => if present k then need k else 0).sum ≤ p.2 ∧ p.2 ≤ bound := by
  induction ks generalizing s offset with
  | nil =>
      cases hwalk
      exact ⟨Nat.le_refl _, hoffset⟩
  | cons k ks ih =>
      have htail := fun k' hk' => hread k' (List.mem_cons_of_mem _ hk')
      rw [walk] at hwalk
      rw [List.map_cons, List.sum_cons]
      split at hwalk
      next hset =>
        rw [if_pos hset]
        split at hwalk
        next s' offset' hk =>
          obtain ⟨hneed, hbound⟩ := hread k List.mem_cons_self _ _ _ hk hoffset
          obtain ⟨hsum, hend⟩ := ih htail hwalk hbound
          dsimp only at hneed
          exact ⟨by omega, hend⟩
        next => cases hwalk
      next hclear =>
        rw [if_neg hclear, Nat.zero_add]
        exact ih htail hwalk hoffset

/-- Fields in ascending order are read one after the other, if every one takes its
own bytes and moves the state from its stage to the next.  Other bytes may follow. -/
theorem walk_stages_append {present : Nat → Bool} {read : Nat → σ → Nat → Except ε (σ × Nat)}
    {raw tail : Bytes} {stage : Nat → σ} {fields : Fields} {a n offset : Nat}
    (hread : ∀ k bytes, (k, bytes) ∈ fields → ∀ offset rest, At raw offset (bytes ++ rest) →
      read k (stage k) offset = .ok (stage (k + 1), offset + bytes.length))
    (hskip : ∀ k ∈ List.range' a n, present k = false → stage (k + 1) = stage k)
    (hpresent : ∀ k ∈ List.range' a n, present k = true ↔ ∃ bytes, (k, bytes) ∈ fields)
    (hsorted : fields.Pairwise fun f g => f.1 < g.1)
    (hrange : ∀ f ∈ fields, a ≤ f.1 ∧ f.1 < a + n) (hat : At raw offset (payload fields ++ tail)) :
    walk present read (List.range' a n) (stage a) offset =
      .ok (stage (a + n), offset + (payload fields).length) := by
  induction n generalizing a offset fields with
  | zero =>
      cases fields with
      | nil => rfl
      | cons f fields =>
          have hf := hrange f List.mem_cons_self
          omega
  | succ n ih =>
      rw [List.range'_succ] at hskip hpresent ⊢
      rw [walk]
      have hnext : a + 1 + n = a + (n + 1) := by omega
      cases hp : present a with
      | false =>
          have habove (f : Nat × Bytes) (hf : f ∈ fields) : a + 1 ≤ f.1 ∧ f.1 < a + 1 + n := by
            have hr := hrange f hf
            have hne : f.1 ≠ a := by
              rintro rfl
              rw [(hpresent f.1 List.mem_cons_self).mpr ⟨f.2, hf⟩] at hp
              cases hp
            omega
          have hgo := ih hread (fun k hk => hskip k (List.mem_cons_of_mem _ hk))
            (fun k hk => hpresent k (List.mem_cons_of_mem _ hk)) hsorted habove hat
          rw [hskip a List.mem_cons_self hp, hnext] at hgo
          exact hgo
      | true =>
          obtain ⟨bytes, hmem⟩ := (hpresent a List.mem_cons_self).mp hp
          cases fields with
          | nil => cases hmem
          | cons f fields =>
              rw [List.pairwise_cons] at hsorted
              have hf : f = (a, bytes) := by
                rcases List.mem_cons.mp hmem with hf | hf
                · exact hf.symm
                · have hlt := hsorted.1 _ hf
                  have hle := hrange f List.mem_cons_self
                  omega
              subst hf
              have habove (g : Nat × Bytes) (hg : g ∈ fields) :
                  a + 1 ≤ g.1 ∧ g.1 < a + 1 + n := by
                have hlt := hsorted.1 g hg
                have hr := hrange g (List.mem_cons_of_mem _ hg)
                omega
              have hlater (k : Nat) (hk : k ∈ List.range' (a + 1) n) :
                  present k = true ↔ ∃ bytes, (k, bytes) ∈ fields := by
                rw [hpresent k (List.mem_cons_of_mem _ hk)]
                have hne : k ≠ a := by
                  have := List.mem_range'_1.mp hk
                  omega
                simp [hne]
              have hhead : At raw offset (bytes ++ (payload fields ++ tail)) := by
                rw [← List.append_assoc]
                exact hat
              have hgo := ih (fun k b hb => hread k b (List.mem_cons_of_mem _ hb))
                (fun k hk => hskip k (List.mem_cons_of_mem _ hk)) hlater hsorted.2 habove hhead.tail
              rw [hread a bytes List.mem_cons_self offset _ hhead]
              rw [hnext] at hgo
              rw [if_pos rfl]
              exact hgo.trans (by rw [payload, payload, List.flatMap_cons, List.length_append,
                Nat.add_assoc])

theorem walk_stages {present : Nat → Bool} {read : Nat → σ → Nat → Except ε (σ × Nat)}
    {raw : Bytes} {stage : Nat → σ} {fields : Fields} {a n offset : Nat}
    (hread : ∀ k bytes, (k, bytes) ∈ fields → ∀ offset rest, At raw offset (bytes ++ rest) →
      read k (stage k) offset = .ok (stage (k + 1), offset + bytes.length))
    (hskip : ∀ k ∈ List.range' a n, present k = false → stage (k + 1) = stage k)
    (hpresent : ∀ k ∈ List.range' a n, present k = true ↔ ∃ bytes, (k, bytes) ∈ fields)
    (hsorted : fields.Pairwise fun f g => f.1 < g.1)
    (hrange : ∀ f ∈ fields, a ≤ f.1 ∧ f.1 < a + n) (hat : At raw offset (payload fields)) :
    walk present read (List.range' a n) (stage a) offset =
      .ok (stage (a + n), offset + (payload fields).length) :=
  walk_stages_append hread hskip hpresent hsorted hrange
    (by rw [List.append_nil]; exact hat : At raw offset (payload fields ++ []))

end FieldWalk
