import Iso8583Switch.Library.FieldWalk

/-!
# The layout of messages with a presence bitmap

A reader that walks the numbers of a bitmap is an algorithm.  What it accepts can be
said without it: the bytes of the present fields, in the order of their numbers, each
of the form that its number asks for (`Listed`).

`Takes` ties the reader of one value to the form of its bytes.  It takes them whole,
whatever follows.  It takes nothing else.  And where they are cut off it fails in one
way.  `walk_listed`, `walk_cut` and `listed_of_walk` carry the three to the walk, and
`walk_fails` says what is behind any other failure.
-/

namespace FieldWalk

variable {σ ε α : Type}

/-! ## Readers of one value -/

structure Takes (read : Bytes → Nat → Except ε (α × Nat)) (wf : Bytes → Prop)
    (content : Bytes → α) (short : ε) : Prop where
  whole : ∀ {bytes raw rest : Bytes} {offset : Nat}, wf bytes → At raw offset (bytes ++ rest) →
    read raw offset = .ok (content bytes, offset + bytes.length)
  cut : ∀ {bytes part raw : Bytes} {offset : Nat}, wf bytes → part <+: bytes →
    part.length < bytes.length → At raw offset part → read raw offset = .error short
  only : ∀ {raw : Bytes} {offset : Nat} {p : α × Nat}, offset ≤ raw.length →
    read raw offset = .ok p → ∃ bytes rest, wf bytes ∧ At raw offset (bytes ++ rest) ∧
      p = (content bytes, offset + bytes.length)

theorem At.le {raw rest : Bytes} {offset : Nat} (h : At raw offset rest) : offset ≤ raw.length := by
  obtain ⟨before, rfl, rfl⟩ := h
  rw [List.length_append]
  omega

theorem At.rest_eq {raw rest rest' : Bytes} {offset : Nat} (h : At raw offset rest)
    (h' : At raw offset rest') : rest = rest' := by
  obtain ⟨before, rfl, hlen⟩ := h
  obtain ⟨before', heq, hlen'⟩ := h'
  exact (List.append_inj heq (hlen.trans hlen'.symm)).2

/-- There are no two readings of the same bytes. -/
theorem Takes.unique {read : Bytes → Nat → Except ε (α × Nat)} {wf : Bytes → Prop}
    {content : Bytes → α} {short : ε} (h : Takes read wf content short) {a b r t : Bytes}
    (ha : wf a) (hb : wf b) (heq : a ++ r = b ++ t) : a = b ∧ r = t := by
  have hread := h.whole ha (At.start [] (a ++ r))
  rw [heq, h.whole hb (At.start [] (b ++ t))] at hread
  have hlen : b.length = a.length := by simpa using (Prod.mk.inj (Except.ok.inj hread)).2
  exact List.append_inj heq hlen.symm

/-! ## Lists of fields -/

/-- The present fields in the order of their numbers, each well formed. -/
structure Listed (present : Nat → Bool) (wf : Nat → Bytes → Prop) (ks : List Nat)
    (fields : Fields) : Prop where
  numbers : fields.map Prod.fst = ks.filter present
  wellFormed : ∀ f ∈ fields, wf f.1 f.2

section
variable {present : Nat → Bool} {wf : Nat → Bytes → Prop}

theorem Listed.nil : Listed present wf [] [] :=
  ⟨rfl, fun _ hf => nomatch hf⟩

theorem Listed.skip {k : Nat} {ks : List Nat} {fields : Fields} (hk : present k = false)
    (h : Listed present wf ks fields) : Listed present wf (k :: ks) fields :=
  ⟨by rw [h.numbers, List.filter_cons, hk]; rfl, h.wellFormed⟩

theorem Listed.take {k : Nat} {ks : List Nat} {bytes : Bytes} {fields : Fields}
    (hk : present k = true) (hbytes : wf k bytes) (h : Listed present wf ks fields) :
    Listed present wf (k :: ks) ((k, bytes) :: fields) := by
  refine ⟨?_, ?_⟩
  · rw [List.map_cons, h.numbers, List.filter_cons, hk]
    rfl
  · intro f hf
    rcases List.mem_cons.mp hf with rfl | hf
    · exact hbytes
    · exact h.wellFormed f hf

theorem Listed.of_skip {k : Nat} {ks : List Nat} {fields : Fields} (hk : present k = false)
    (h : Listed present wf (k :: ks) fields) : Listed present wf ks fields :=
  ⟨by rw [h.numbers, List.filter_cons, hk]; rfl, h.wellFormed⟩

theorem Listed.of_take {k : Nat} {ks : List Nat} {fields : Fields} (hk : present k = true)
    (h : Listed present wf (k :: ks) fields) : ∃ bytes fields', fields = (k, bytes) :: fields' ∧
      wf k bytes ∧ Listed present wf ks fields' := by
  have hnumbers := h.numbers
  rw [List.filter_cons, hk, if_pos rfl] at hnumbers
  cases fields with
  | nil => cases hnumbers
  | cons f fields =>
      obtain ⟨k', bytes⟩ := f
      rw [List.map_cons, List.cons.injEq] at hnumbers
      obtain ⟨rfl, hrest⟩ := hnumbers
      exact ⟨bytes, fields, rfl, h.wellFormed _ List.mem_cons_self, hrest,
        fun f hf => h.wellFormed f (List.mem_cons_of_mem _ hf)⟩

/-- The numbers that are listed are those that are present. -/
theorem Listed.mem_iff {ks : List Nat} {fields : Fields} (h : Listed present wf ks fields)
    (k : Nat) : (∃ bytes, (k, bytes) ∈ fields) ↔ k ∈ ks ∧ present k = true := by
  rw [← List.mem_filter, ← h.numbers, List.mem_map]
  refine ⟨?_, ?_⟩
  · rintro ⟨bytes, hmem⟩
    exact ⟨(k, bytes), hmem, rfl⟩
  · rintro ⟨⟨k', bytes⟩, hmem, rfl⟩
    exact ⟨bytes, hmem⟩

/-- Only the presence of the numbers at hand matters. -/
theorem Listed.congr {present' : Nat → Bool} {ks : List Nat} {fields : Fields}
    (hpresent : ∀ k ∈ ks, present k = present' k) (h : Listed present wf ks fields) :
    Listed present' wf ks fields :=
  ⟨by rw [h.numbers, List.filter_congr hpresent], h.wellFormed⟩

end

/-! ## Walks -/

/-- Read a field and assign what it holds. -/
def readAndAssign (take : Nat → Bytes → Nat → Except ε (α × Nat))
    (assign : Nat → α → σ → Except ε σ) (raw : Bytes) (k : Nat) (s : σ) (offset : Nat) :
    Except ε (σ × Nat) := do
  let (data, offset) ← take k raw offset
  let s ← assign k data s
  .ok (s, offset)

/-- Assign what the fields hold, one after the other. -/
def assignAll (assign : Nat → α → σ → Except ε σ) (content : Nat → Bytes → α) :
    Fields → σ → Except ε σ
  | [], s => .ok s
  | (k, bytes) :: fields, s => do
      let s ← assign k (content k bytes) s
      assignAll assign content fields s

theorem assignAll_congr {assign assign' : Nat → α → σ → Except ε σ} {content : Nat → Bytes → α}
    {fields : Fields} (h : ∀ f ∈ fields, assign f.1 = assign' f.1) (s : σ) :
    assignAll assign content fields s = assignAll assign' content fields s := by
  induction fields generalizing s with
  | nil => rfl
  | cons f fields ih =>
      rw [assignAll, assignAll, h f List.mem_cons_self]
      cases assign' f.1 (content f.1 f.2) s with
      | error e => rfl
      | ok t => exact ih (fun f hf => h f (List.mem_cons_of_mem _ hf)) t

/-- What no assignment but that of one number touches. -/
theorem assignAll_untouched {γ : Type} {assign : Nat → α → σ → Except ε σ}
    {content : Nat → Bytes → α} {p : σ → γ} {a : Nat}
    (hother : ∀ k data s s', k ≠ a → assign k data s = .ok s' → p s' = p s) {fields : Fields}
    (habsent : a ∉ fields.map Prod.fst) {s s' : σ}
    (h : assignAll assign content fields s = .ok s') : p s' = p s := by
  induction fields generalizing s with
  | nil =>
      cases h
      rfl
  | cons f fields ih =>
      obtain ⟨k, bytes⟩ := f
      rw [List.map_cons, List.mem_cons, not_or] at habsent
      obtain ⟨t, hfirst, hrest⟩ := ok_bind_eq h
      exact (ih habsent.2 hrest).trans (hother k _ s t (Ne.symm habsent.1) hfirst)

/-- What one number alone assigns is what its field holds. -/
theorem assignAll_field {γ : Type} {assign : Nat → α → σ → Except ε σ} {content : Nat → Bytes → α}
    {p : σ → γ} {a : Nat} {g : α → γ}
    (hother : ∀ k data s s', k ≠ a → assign k data s = .ok s' → p s' = p s)
    (hown : ∀ data s s', assign a data s = .ok s' → p s' = g data) {fields : Fields}
    (hnodup : (fields.map Prod.fst).Nodup) {bytes : Bytes} (hmem : (a, bytes) ∈ fields) {s s' : σ}
    (h : assignAll assign content fields s = .ok s') : p s' = g (content a bytes) := by
  induction fields generalizing s with
  | nil => cases hmem
  | cons f fields ih =>
      obtain ⟨k, first⟩ := f
      rw [List.map_cons, List.nodup_cons] at hnodup
      obtain ⟨t, hfirst, hrest⟩ := ok_bind_eq h
      rcases List.mem_cons.mp hmem with heq | hmem
      · cases heq
        exact (assignAll_untouched hother hnodup.1 hrest).trans (hown _ s t hfirst)
      · exact ih hnodup.2 hmem hrest

theorem payload_cons (f : Nat × Bytes) (fields : Fields) :
    payload (f :: fields) = f.2 ++ payload fields := rfl

theorem walk_of_clear {present : Nat → Bool} {read : Nat → σ → Nat → Except ε (σ × Nat)}
    {ks : List Nat} (h : ∀ k ∈ ks, present k = false) (s : σ) (offset : Nat) :
    walk present read ks s offset = .ok (s, offset) := by
  induction ks with
  | nil => rfl
  | cons k ks ih =>
      rw [walk, h k List.mem_cons_self]
      exact ih fun k' hk' => h k' (List.mem_cons_of_mem _ hk')

/-- A field that takes no bytes and changes nothing may as well be absent. -/
theorem walk_skips {present present' : Nat → Bool}
    {read : Nat → σ → Nat → Except ε (σ × Nat)} {ks : List Nat}
    (hsub : ∀ k ∈ ks, present' k = true → present k = true)
    (hskip : ∀ k ∈ ks, present k = true → present' k = false →
      ∀ s offset, read k s offset = .ok (s, offset)) (s : σ) (offset : Nat) :
    walk present read ks s offset = walk present' read ks s offset := by
  induction ks generalizing s offset with
  | nil => rfl
  | cons k ks ih =>
      have htail := ih (fun k' hk' => hsub k' (List.mem_cons_of_mem _ hk'))
        fun k' hk' => hskip k' (List.mem_cons_of_mem _ hk')
      rw [walk, walk]
      cases hset' : present' k with
      | true =>
          rw [hsub k List.mem_cons_self hset', if_pos rfl, if_pos rfl]
          cases read k s offset with
          | error e => rfl
          | ok p => exact htail p.1 p.2
      | false =>
          cases hset : present k with
          | true =>
              rw [if_pos rfl, hskip k List.mem_cons_self hset hset']
              exact htail s offset
          | false => exact htail s offset

section
variable {present : Nat → Bool} {wf : Nat → Bytes → Prop} {content : Nat → Bytes → α}
  {take : Nat → Bytes → Nat → Except ε (α × Nat)} {assign : Nat → α → σ → Except ε σ} {short : ε}
  {ks : List Nat}

/-- A walk over listed fields takes them all, whatever follows. -/
theorem walk_listed (htake : ∀ k, Takes (take k) (wf k) (content k) short) {fields : Fields}
    (h : Listed present wf ks fields) {raw rest : Bytes} {offset : Nat}
    (hat : At raw offset (payload fields ++ rest)) (s : σ) :
    walk present (readAndAssign take assign raw) ks s offset =
      (assignAll assign content fields s).map fun s' => (s', offset + (payload fields).length) := by
  induction ks generalizing fields offset s with
  | nil =>
      have hnil : fields = [] := List.map_eq_nil_iff.mp h.numbers
      subst hnil
      rfl
  | cons k ks ih =>
      rw [walk]
      cases hk : present k with
      | false => exact ih (h.of_skip hk) hat s
      | true =>
          obtain ⟨bytes, fields', rfl, hbytes, hrest⟩ := h.of_take hk
          rw [payload_cons, List.append_assoc] at hat
          rw [if_pos rfl, readAndAssign, (htake k).whole hbytes hat, ok_bind, assignAll]
          dsimp only
          cases hassign : assign k (content k bytes) s with
          | error e => rfl
          | ok s' =>
              simp only [ok_bind]
              rw [ih hrest hat.tail s', payload_cons, List.length_append, Nat.add_assoc]

/-- Where listed fields are cut off, the walk fails as their readers do. -/
theorem walk_cut (htake : ∀ k, Takes (take k) (wf k) (content k) short) {fields : Fields}
    (h : Listed present wf ks fields) {s s' : σ} (hassign : assignAll assign content fields s = .ok s')
    {part raw : Bytes} {offset : Nat} (hpart : part <+: payload fields)
    (hlt : part.length < (payload fields).length) (hat : At raw offset part) :
    walk present (readAndAssign take assign raw) ks s offset = .error short := by
  induction ks generalizing fields offset s part with
  | nil =>
      have hnil : fields = [] := List.map_eq_nil_iff.mp h.numbers
      subst hnil
      exact absurd hlt (Nat.not_lt_zero _)
  | cons k ks ih =>
      rw [walk]
      cases hk : present k with
      | false => exact ih (h.of_skip hk) hassign hpart hlt hat
      | true =>
          obtain ⟨bytes, fields', rfl, hbytes, hrest⟩ := h.of_take hk
          obtain ⟨t, hfirst, hassign⟩ := ok_bind_eq hassign
          rw [payload_cons] at hpart hlt
          rw [if_pos rfl, readAndAssign]
          rcases Nat.lt_or_ge part.length bytes.length with hinside | hbehind
          · -- The cut is inside the first field.
            have hcut : part <+: bytes := List.prefix_of_prefix_length_le hpart
              (List.prefix_append _ _) (Nat.le_of_lt hinside)
            rw [(htake k).cut hbytes hcut hinside hat]
            rfl
          · obtain ⟨part', rfl⟩ := List.prefix_of_prefix_length_le (List.prefix_append _ _) hpart
              hbehind
            rw [List.length_append, List.length_append] at hlt
            rw [(htake k).whole hbytes hat, ok_bind]
            dsimp only
            rw [hfirst, ok_bind]
            exact ih hrest hassign ((List.prefix_append_right_inj bytes).mp hpart) (by omega)
              hat.tail

/-- What a walk has read is a list of fields. -/
theorem listed_of_walk (htake : ∀ k, Takes (take k) (wf k) (content k) short) {raw : Bytes}
    {s : σ} {offset : Nat} {p : σ × Nat} (hle : offset ≤ raw.length)
    (hwalk : walk present (readAndAssign take assign raw) ks s offset = .ok p) :
    ∃ fields rest, Listed present wf ks fields ∧ At raw offset (payload fields ++ rest) ∧
      assignAll assign content fields s = .ok p.1 ∧ p.2 = offset + (payload fields).length := by
  induction ks generalizing s offset with
  | nil =>
      cases hwalk
      exact ⟨[], raw.drop offset, Listed.nil, ⟨raw.take offset, (List.take_append_drop _ _).symm,
        List.length_take_of_le hle⟩, rfl, rfl⟩
  | cons k ks ih =>
      rw [walk] at hwalk
      cases hk : present k with
      | false =>
          rw [hk] at hwalk
          obtain ⟨fields, rest, h, hat, hassign, hend⟩ := ih hle hwalk
          exact ⟨fields, rest, h.skip hk, hat, hassign, hend⟩
      | true =>
          rw [hk, if_pos rfl, readAndAssign] at hwalk
          cases htaken : take k raw offset with
          | error e =>
              rw [htaken] at hwalk
              cases hwalk
          | ok q =>
              obtain ⟨bytes, rest, hbytes, hat, rfl⟩ := (htake k).only hle htaken
              rw [htaken, ok_bind] at hwalk
              dsimp only at hwalk
              cases hfirst : assign k (content k bytes) s with
              | error e =>
                  rw [hfirst] at hwalk
                  cases hwalk
              | ok t =>
                  rw [hfirst, ok_bind] at hwalk
                  obtain ⟨fields, rest', h, hat', hassign, hend⟩ := ih hat.tail.le hwalk
                  refine ⟨(k, bytes) :: fields, rest', h.take hk hbytes, ?_, ?_, ?_⟩
                  · rw [payload_cons, List.append_assoc, ← At.rest_eq hat.tail hat']
                    exact hat
                  · rw [assignAll, hfirst, ok_bind]
                    exact hassign
                  · rw [hend, payload_cons, List.length_append, Nat.add_assoc]

/-- Bytes hold one list of the present fields at most. -/
theorem Listed.unique (htake : ∀ k, Takes (take k) (wf k) (content k) short)
    {fields fields' : Fields} (h : Listed present wf ks fields) (h' : Listed present wf ks fields')
    {r t : Bytes} (heq : payload fields ++ r = payload fields' ++ t) : fields = fields' ∧ r = t := by
  induction ks generalizing fields fields' with
  | nil =>
      have hnil : fields = [] := List.map_eq_nil_iff.mp h.numbers
      have hnil' : fields' = [] := List.map_eq_nil_iff.mp h'.numbers
      subst hnil hnil'
      exact ⟨rfl, heq⟩
  | cons k ks ih =>
      cases hk : present k with
      | false => exact ih (h.of_skip hk) (h'.of_skip hk) heq
      | true =>
          obtain ⟨bytes, rest, rfl, hbytes, hrest⟩ := h.of_take hk
          obtain ⟨bytes', rest', rfl, hbytes', hrest'⟩ := h'.of_take hk
          rw [payload_cons, payload_cons, List.append_assoc, List.append_assoc] at heq
          obtain ⟨rfl, htail⟩ := (htake k).unique hbytes hbytes' heq
          obtain ⟨rfl, hend⟩ := ih hrest hrest' htail
          exact ⟨rfl, hend⟩

/-- A field that is well formed but cannot be assigned, behind fields that can. -/
structure StopsAt (present : Nat → Bool) (wf : Nat → Bytes → Prop) (content : Nat → Bytes → α)
    (assign : Nat → α → σ → Except ε σ) (before : List Nat) (k : Nat) (s : σ) (e : ε)
    (fields : Fields) (bytes : Bytes) : Prop where
  listed : Listed present wf before fields
  isSet : present k = true
  wellFormed : wf k bytes
  refused : ∃ t, assignAll assign content fields s = .ok t ∧ assign k (content k bytes) t = .error e

/-- A failure that is none of the readers' comes from an assignment. -/
theorem walk_fails (htake : ∀ k, Takes (take k) (wf k) (content k) short) {e : ε}
    (hnever : ∀ k raw offset, take k raw offset ≠ .error e) {raw : Bytes} {s : σ} {offset : Nat}
    (hle : offset ≤ raw.length) :
    walk present (readAndAssign take assign raw) ks s offset = .error e ↔
      ∃ before k after fields bytes rest, ks = before ++ k :: after ∧
        StopsAt present wf content assign before k s e fields bytes ∧
        At raw offset (payload fields ++ (bytes ++ rest)) := by
  refine ⟨fun hwalk => ?_, ?_⟩
  · induction ks generalizing s offset with
    | nil => cases hwalk
    | cons k ks ih =>
        rw [walk] at hwalk
        cases hk : present k with
        | false =>
            rw [hk] at hwalk
            obtain ⟨before, l, after, fields, bytes, rest, rfl, hstops, hat⟩ := ih hle hwalk
            exact ⟨k :: before, l, after, fields, bytes, rest, rfl,
              ⟨hstops.listed.skip hk, hstops.isSet, hstops.wellFormed, hstops.refused⟩, hat⟩
        | true =>
            rw [hk, if_pos rfl, readAndAssign] at hwalk
            cases htaken : take k raw offset with
            | error e' =>
                rw [htaken] at hwalk
                cases hwalk
                exact absurd htaken (hnever k raw offset)
            | ok q =>
                obtain ⟨bytes, rest, hbytes, hat, rfl⟩ := (htake k).only hle htaken
                rw [htaken, ok_bind] at hwalk
                dsimp only at hwalk
                cases hfirst : assign k (content k bytes) s with
                | error e' =>
                    rw [hfirst] at hwalk
                    cases hwalk
                    exact ⟨[], k, ks, [], bytes, rest, rfl,
                      ⟨Listed.nil, hk, hbytes, s, rfl, hfirst⟩, hat⟩
                | ok t =>
                    rw [hfirst, ok_bind] at hwalk
                    obtain ⟨before, l, after, fields, bytes', rest', rfl, hstops, hat'⟩ :=
                      ih hat.tail.le hwalk
                    obtain ⟨t', hassign, hrefused⟩ := hstops.refused
                    refine ⟨k :: before, l, after, (k, bytes) :: fields, bytes', rest', rfl,
                      ⟨hstops.listed.take hk hbytes, hstops.isSet, hstops.wellFormed, t', ?_,
                        hrefused⟩, ?_⟩
                    · rw [assignAll, hfirst, ok_bind]
                      exact hassign
                    · rw [payload_cons, List.append_assoc, ← At.rest_eq hat.tail hat']
                      exact hat
  · rintro ⟨before, k, after, fields, bytes, rest, rfl, hstops, hat⟩
    obtain ⟨t, hassign, hrefused⟩ := hstops.refused
    rw [walk_append, walk_listed htake hstops.listed hat, hassign]
    dsimp only [Except.map]
    rw [walk, hstops.isSet, if_pos rfl, readAndAssign,
      (htake k).whole hstops.wellFormed hat.tail, ok_bind]
    dsimp only
    rw [hrefused]
    rfl

end

end FieldWalk
