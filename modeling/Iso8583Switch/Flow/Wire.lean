import Iso8583Switch.Flow.Contexts

/-!
# Between the guard and the bank

A frame is on the wire from its placement until a reply worker is done with an
answer to it.  An answer is matched through the NAT table, which is keyed by the
STAN of the frame.  So it matters which STANs are in use between the guard and
the bank: by contexts that have an egress STAN, by frames on the wire and by the
NAT table.

`Wiring` says once what a move can do to all this.  The invariants hold under two
disciplines.  `BankMirrors` is what the bank does, and `StansApart` keeps two uses
of one STAN apart.
-/

namespace Iso8583Switch

open Text Function

/-- Events about frames, their STANs and their answers. -/
def Event.wired : Event → Bool
  | .numbered _ _ | .placed _ | .replied _ | .handled _ _ => true
  | _ => false

def Event.isPlaced : Event → Bool
  | .placed _ => true
  | _ => false

def Event.isReplied : Event → Bool
  | .replied _ => true
  | _ => false

/-- The frame that a reply answers. -/
def Event.repliedTo : Event → Option Nat
  | .replied p => p.answers
  | _ => none

theorem Event.unwired_of_neutral {e : Event} (h : e.neutral = true) : e.wired = false := by
  cases e <;> first | rfl | cases h

/-- The frame went out through the NAT. -/
def Frame.Renumbered (f : Frame) (i : Serial) : Prop := f.origin = .ingress i

/-- The frame went out under a STAN that the NAT does not know. -/
def Frame.Raw (f : Frame) : Prop := ∀ i, f.origin ≠ .ingress i

theorem Frame.renumbered_or_raw (f : Frame) : (∃ i, f.Renumbered i) ∨ f.Raw := by
  by_cases h : ∃ i, f.origin = .ingress i
  · exact .inl h
  · exact .inr fun i hi => h ⟨i, hi⟩

/-- The reply has the RRN, the STAN and the acquirer id of the frame. -/
structure Packet.Mirrors (p : Packet) (f : Frame) : Prop where
  rrn : p.transaction.rrn = f.transaction.rrn
  stan : p.transaction.stan = f.transaction.stan
  acquirerId : p.transaction.acquirerId = fromUtf8Lossy f.transaction.acquirerId

namespace Flow

/-- No worker is done with an answer to the frame at position `n`. -/
structure OnWire (v : Flow) (n : Nat) (f : Frame) : Prop where
  placed : v.trace[n]? = some (.placed f)
  unanswered : ∀ {p completed}, .handled p completed ∈ v.trace → p.answers ≠ some n

/-- The instance is on its way to the bank, or at the bank, under an egress STAN. -/
def Asked (v : Flow) (i : Serial) (e : String) : Prop :=
  (∃ w c, v.carried w = some c ∧ c.serial = i ∧ c.egress = some e) ∨
    ∃ n f, v.OnWire n f ∧ f.Renumbered i ∧ f.transaction.stan = e

/-- The reply is in the inbox, or a worker has translated it. -/
def InHand (v : Flow) (p : Packet) : Prop :=
  p ∈ v.inbox ∨ ∃ w key, v.handling w = some (p, key)

end Flow

open Iso8583Switch.Flow

/-! ## What a move does on the wire -/

/-- The replies stay where they are. -/
structure SameMail (v v' : Flow) : Prop where
  inbox : v'.inbox = v.inbox
  handling : v'.handling = v.handling

/-- What is carried under an egress STAN was so before. -/
def CarriedOld (v v' : Flow) : Prop :=
  ∀ {w c}, v'.carried w = some c → c.egress = none ∨ v.carried w = some c

inductive Wiring (v v' : Flow) (l : List Event) : Prop where
  | quiet (unwired : ∀ e ∈ l, e.wired = false) (nat : v'.nat = v.nat) (mail : SameMail v v')
      (carried : CarriedOld v v') : Wiring v v' l
  | number {w : Nat} {c : Carried} (e : String) (get : v.carried w = some c)
      (fresh : c.egress = none) (new : l = [.numbered c.serial e])
      (nat : v'.nat = v.nat.put e c.tx.stan) (mail : SameMail v v')
      (carried : ∀ {w' c'}, v'.carried w' = some c' → v.carried w' = some c' ∨
        (c'.serial = c.serial ∧ c'.egress = some e)) : Wiring v v' l
  | place (f : Frame) (source : f.Raw ∨ ∃ w c e, v.carried w = some c ∧ c.egress = some e ∧
        f.Renumbered c.serial ∧ f.transaction = c.tx)
      (new : ∀ e ∈ l, e.wired = true → e = .placed f) (mem : .placed f ∈ l)
      (nat : v'.nat = v.nat) (mail : SameMail v v') (carried : CarriedOld v v') : Wiring v v' l
  | reply (p : Packet) (new : l = [.replied p]) (nat : v'.nat = v.nat)
      (inbox : v'.inbox = v.inbox ++ [p]) (handling : v'.handling = v.handling)
      (carried : v'.carried = v.carried) : Wiring v v' l
  | translate {w : Nat} {p : Packet} {rest : List Packet} (inbox : v.inbox = p :: rest)
      (idle : v.handling w = none) (new : l = []) (nat : v'.nat = v.nat.remove p.transaction.stan)
      (inbox' : v'.inbox = rest)
      (handling : v'.handling = update v.handling w (some (p, replyKey v.nat p.transaction)))
      (carried : v'.carried = v.carried) : Wiring v v' l
  | handle {w : Nat} {p : Packet} {key : String} (completed : Option Serial)
      (get : v.handling w = some (p, key))
      (new : ∀ e ∈ l, e.wired = true → e = .handled p completed) (mem : .handled p completed ∈ l)
      (nat : v'.nat = v.nat) (inbox : v'.inbox = v.inbox)
      (handling : v'.handling = update v.handling w none) (carried : v'.carried = v.carried) :
      Wiring v v' l
  | collect {e : String} (get : v.reclaim = some e) (new : l = []) (nat : v'.nat = v.nat.remove e)
      (mail : SameMail v v') (carried : v'.carried = v.carried) : Wiring v v' l

theorem Touch.wiring {v : Flow} {key : String} {entry entry' : ActiveTransaction} {l : List Event}
    {reclaim : Option String} {handling : Nat → Option (Packet × String)}
    (h : Touch v key entry entry' l reclaim handling) :
    Wiring v { v with
      guard := v.guard.put key entry'
      trace := v.trace ++ l
      reclaim := reclaim
      handling := handling } l := by
  cases h with
  | mark => exact .quiet (by simp [Event.wired]) rfl ⟨rfl, rfl⟩ fun hc => .inr hc
  | record => exact .quiet (by simp) rfl ⟨rfl, rfl⟩ fun hc => .inr hc
  | close =>
      refine .quiet (fun e he => ?_) rfl ⟨rfl, rfl⟩ fun hc => .inr hc
      obtain ⟨_, -, rfl⟩ := mem_answers.mp he
      rfl
  | timeOut sent =>
      cases sent with
      | none =>
          refine .quiet (fun e he => ?_) rfl ⟨rfl, rfl⟩ fun hc => .inr hc
          simp only [reversals, List.mem_append, List.mem_singleton, mem_answers] at he
          rcases he with ⟨_, -, rfl⟩ | rfl <;> rfl
      | some target =>
          refine .place ⟨.reaper entry.serial, target.1, target.2, Engine.autoReversal entry⟩
            (.inl fun _ hi => by cases hi) (fun e he hwired => ?_) (by simp [reversals]) rfl ⟨rfl, rfl⟩
            fun hc => .inr hc
          simp only [reversals, List.mem_append, List.mem_cons, List.not_mem_nil, or_false,
            mem_answers] at he
          rcases he with ⟨_, -, rfl⟩ | rfl | rfl
          · cases hwired
          · cases hwired
          · rfl
  | complete hget =>
      refine .handle (some entry.serial) hget (fun e he hwired => ?_) List.mem_cons_self rfl rfl rfl
        rfl
      simp only [List.mem_cons, mem_answers] at he
      rcases he with rfl | rfl | ⟨_, -, rfl⟩
      · rfl
      · cases hwired
      · cases hwired
  | completeUnjournaled hget =>
      exact .handle (some entry.serial) hget (by simp) (by simp) rfl rfl rfl rfl

theorem Move.wiring {v v' : Flow} (h : Move v v') {l : List Event}
    (hl : v'.trace = v.trace ++ l) : Wiring v v' l := by
  have hcleared {w : Nat} {carried : Nat → Option Carried} (hc : carried = update v.carried w none)
      {w' : Nat} {c : Carried} (h : carried w' = some c) : c.egress = none ∨ v.carried w' = some c := by
    rw [hc, update_apply] at h
    split at h
    · cases h
    · exact .inr h
  have hnil {m : Flow} (hm : m.trace = v.trace) (hl : m.trace = v.trace ++ l) : l = [] :=
    List.append_cancel_left (hl.symm.trans (hm.trans (List.append_nil _).symm))
  cases h with
  | custody h =>
      cases h with
      | receive =>
          obtain rfl := List.append_cancel_left hl
          exact .quiet (by simp [Event.wired]) rfl ⟨rfl, rfl⟩ fun hc => .inr hc
      | answerFront =>
          obtain rfl := List.append_cancel_left hl
          refine .quiet (fun e he => ?_) rfl ⟨rfl, rfl⟩ fun hc => .inr hc
          obtain ⟨_, -, rfl⟩ := mem_answers.mp he
          rfl
      | dropFront =>
          obtain rfl := hnil rfl hl
          exact .quiet (by simp) rfl ⟨rfl, rfl⟩ fun hc => .inr hc
      | @insert w tx now =>
          obtain rfl := List.append_cancel_left hl
          refine .quiet (by simp [Event.wired]) rfl ⟨rfl, rfl⟩ fun {w' c} hc => ?_
          dsimp only at hc
          rw [update_apply] at hc
          split at hc
          · cases hc
            exact .inl rfl
          · exact .inr hc
      | touch _ htouch =>
          obtain rfl := List.append_cancel_left hl
          exact htouch.wiring
      | evict =>
          obtain rfl := List.append_cancel_left hl
          exact .quiet (by simp [Event.wired]) rfl ⟨rfl, rfl⟩ fun hc => .inr hc
  | traffic h =>
      cases h with
      | note _ neutral =>
          obtain rfl := List.append_cancel_left hl
          exact .quiet (fun e he => Event.unwired_of_neutral (neutral e he)) rfl ⟨rfl, rfl⟩
            fun hc => .inr hc
      | dispatch =>
          obtain rfl := hnil rfl hl
          exact .quiet (by simp) rfl ⟨rfl, rfl⟩ fun hc => hcleared rfl hc
      | dismiss _ _ neutral =>
          obtain rfl := List.append_cancel_left hl
          exact .quiet (fun e he => Event.unwired_of_neutral (neutral e he)) rfl ⟨rfl, rfl⟩
            fun hc => hcleared rfl hc
      | @number w c e hget hfresh =>
          obtain rfl := List.append_cancel_left hl
          refine .number e hget hfresh rfl rfl ⟨rfl, rfl⟩ fun {w' c'} hc => ?_
          dsimp only at hc
          rw [update_apply] at hc
          split at hc
          · cases hc
            exact .inr ⟨rfl, rfl⟩
          · exact .inl hc
      | @place w c e d ch hget hegress =>
          obtain rfl := List.append_cancel_left hl
          exact .place ⟨.ingress c.serial, d, ch, c.tx⟩ (.inr ⟨w, c, e, hget, hegress, rfl, rfl⟩)
            (by simp [Event.wired]) (by simp) rfl ⟨rfl, rfl⟩ fun hc => hcleared rfl hc
      | translatePin =>
          obtain rfl := hnil rfl hl
          exact .quiet (by simp) rfl ⟨rfl, rfl⟩ fun hc => .inr hc
      | dropTask _ _ neutral =>
          obtain rfl := List.append_cancel_left hl
          exact .quiet (fun e he => Event.unwired_of_neutral (neutral e he)) rfl ⟨rfl, rfl⟩
            fun hc => .inr hc
      | @placeTask i tx d ch =>
          obtain rfl := List.append_cancel_left hl
          exact .place ⟨.hsm i, d, ch, tx⟩ (.inl fun _ hi => by cases hi) (by simp) (by simp) rfl
            ⟨rfl, rfl⟩
            fun hc => .inr hc
      | collect hreclaim =>
          obtain rfl := hnil rfl hl
          exact .collect hreclaim rfl rfl ⟨rfl, rfl⟩ rfl
      | reply p =>
          obtain rfl := List.append_cancel_left hl
          exact .reply p rfl rfl rfl rfl rfl
      | translate hinbox hidle =>
          obtain rfl := hnil rfl hl
          exact .translate hinbox hidle rfl rfl rfl rfl rfl
      | discard hget =>
          obtain rfl := List.append_cancel_left hl
          exact .handle none hget (by simp) (by simp) rfl rfl rfl rfl
      | probe d ch tx =>
          obtain rfl := List.append_cancel_left hl
          exact .place ⟨.probe, d, ch, tx⟩ (.inl fun _ hi => by cases hi) (by simp) (by simp) rfl
            ⟨rfl, rfl⟩
            fun hc => .inr hc

namespace Flow

variable {Q : Discipline} {v v' : Flow} {l : List Event}

/-! ## The bank answers once -/

/-- The bank answers a frame that it has got, mirrors it and answers it once. -/
structure FirstAnswer (v : Flow) (p : Packet) (n : Nat) : Prop where
  mirrors : ∃ f, v.trace[n]? = some (.placed f) ∧ p.Mirrors f
  first : ∀ {q}, .replied q ∈ v.trace → q.answers ≠ some n

/-- What the bank does.  It may send what answers no frame. -/
def BankMirrors : Discipline := fun v e =>
  match e with
  | .replied p => ∀ n, p.answers = some n → v.FirstAnswer p n
  | _ => True

theorem BankMirrors.of_not_replied (v : Flow) (e : Event) (h : (!e.isReplied) = true) :
    BankMirrors v e := by
  cases e <;> trivial

/-- Every frame has one answer in hand at most, and none once it is answered. -/
structure Mail (v : Flow) : Prop where
  replied : ∀ {p}, v.InHand p → .replied p ∈ v.trace
  handled_replied : ∀ {p completed}, .handled p completed ∈ v.trace → .replied p ∈ v.trace
  mirrors : ∀ {p n}, .replied p ∈ v.trace → p.answers = some n →
    ∃ f, v.trace[n]? = some (.placed f) ∧ p.Mirrors f
  inbox_once : (v.inbox.filterMap Packet.answers).Nodup
  handling_once : ∀ {w w' p p' key key' n}, v.handling w = some (p, key) →
    v.handling w' = some (p', key') → p.answers = some n → p'.answers = some n → w = w'
  inbox_handling : ∀ {w p p' key n}, p ∈ v.inbox → v.handling w = some (p', key) →
    p.answers = some n → p'.answers ≠ some n
  unhandled : ∀ {p q completed n}, v.InHand p → p.answers = some n →
    .handled q completed ∈ v.trace → q.answers ≠ some n

theorem Initial.mail (h : v.Initial) : v.Mail := by
  constructor <;> simp [InHand, h.trace, h.inbox, h.handling]

namespace Mail

/-- The frame that an answer in hand answers is on the wire. -/
theorem onWire (hv : v.Mail) {p : Packet} {n : Nat} (hp : v.InHand p) (hn : p.answers = some n) :
    ∃ f, v.OnWire n f ∧ p.Mirrors f := by
  obtain ⟨f, hf, hmirrors⟩ := hv.mirrors (hv.replied hp) hn
  exact ⟨f, ⟨hf, hv.unhandled hp hn⟩, hmirrors⟩

/-- A move that touches no reply. -/
theorem frame (hv : v.Mail) (hl : v'.trace = v.trace ++ l) (hmail : SameMail v v')
    (hreplied : ∀ {p}, .replied p ∉ l) (hhandled : ∀ {p completed}, .handled p completed ∉ l) :
    v'.Mail := by
  have hin {p : Packet} (hp : v'.InHand p) : v.InHand p := by
    rwa [InHand, hmail.inbox, hmail.handling] at hp
  have hold {p : Packet} (hp : .replied p ∈ v'.trace) : .replied p ∈ v.trace := by
    rw [hl, List.mem_append] at hp
    exact hp.resolve_right hreplied
  have hold' {p : Packet} {completed : Option Serial} (hp : .handled p completed ∈ v'.trace) :
      .handled p completed ∈ v.trace := by
    rw [hl, List.mem_append] at hp
    exact hp.resolve_right hhandled
  constructor
  · intro p hp
    rw [hl]
    exact List.mem_append_left _ (hv.replied (hin hp))
  · intro p completed hp
    rw [hl]
    exact List.mem_append_left _ (hv.handled_replied (hold' hp))
  · intro p n hp hn
    obtain ⟨f, hf, hmirrors⟩ := hv.mirrors (hold hp) hn
    exact ⟨f, hl ▸ History.kept hf, hmirrors⟩
  · rw [hmail.inbox]
    exact hv.inbox_once
  · rw [hmail.handling]
    exact hv.handling_once
  · rw [hmail.inbox, hmail.handling]
    exact hv.inbox_handling
  · exact fun hp hn hq => hv.unhandled (hin hp) hn (hold' hq)

/-- A reply of the bank. -/
theorem receive (hv : v.Mail) {p : Packet} (hl : v'.trace = v.trace ++ [.replied p])
    (hinbox : v'.inbox = v.inbox ++ [p]) (hhandling : v'.handling = v.handling)
    (hp : ∀ n, p.answers = some n → v.FirstAnswer p n) : v'.Mail := by
  have hin {q : Packet} (hq : v'.InHand q) : v.InHand q ∨ q = p := by
    rw [InHand, hinbox, hhandling, List.mem_append, List.mem_singleton] at hq
    rcases hq with (hq | hq) | hq
    · exact .inl (.inl hq)
    · exact .inr hq
    · exact .inl (.inr hq)
  have hfirst {q : Packet} {n : Nat} (hq : v.InHand q) (hn : q.answers = some n) :
      p.answers ≠ some n :=
    fun hpn => (hp n hpn).first (hv.replied hq) hn
  constructor
  · intro q hq
    rw [hl, List.mem_append, List.mem_singleton]
    rcases hin hq with hq | rfl
    · exact .inl (hv.replied hq)
    · exact .inr rfl
  · intro q completed hq
    rw [hl]
    exact List.mem_append_left _ (hv.handled_replied (by simpa [hl] using hq))
  · intro q n hq hn
    rw [hl, List.mem_append, List.mem_singleton] at hq
    rcases hq with hq | heq
    · obtain ⟨f, hf, hmirrors⟩ := hv.mirrors hq hn
      exact ⟨f, hl ▸ History.kept hf, hmirrors⟩
    · cases heq
      obtain ⟨f, hf, hmirrors⟩ := (hp n hn).mirrors
      exact ⟨f, hl ▸ History.kept hf, hmirrors⟩
  · rw [hinbox, List.filterMap_append, List.nodup_append]
    refine ⟨hv.inbox_once, ?_, fun m hm m' hm' => ?_⟩
    · cases hpn : p.answers <;> simp [hpn]
    · obtain ⟨q, hq, hqm⟩ := List.mem_filterMap.mp hm
      have hpm : p.answers = some m' := by simpa using hm'
      rintro rfl
      exact hfirst (.inl hq) hqm hpm
  · rw [hhandling]
    exact hv.handling_once
  · intro w q q' key n hq hq' hn hn'
    rw [hinbox, List.mem_append, List.mem_singleton] at hq
    rw [hhandling] at hq'
    rcases hq with hq | rfl
    · exact hv.inbox_handling hq hq' hn hn'
    · exact hfirst (.inr ⟨w, key, hq'⟩) hn' hn
  · intro q q' completed n hq hn hq'
    have hold : .handled q' completed ∈ v.trace := by simpa [hl] using hq'
    rcases hin hq with hq | rfl
    · exact hv.unhandled hq hn hold
    · exact (hp n hn).first (hv.handled_replied hold)

/-- A worker takes a reply. -/
theorem take (hv : v.Mail) {w : Nat} {p : Packet} {key : String} {rest : List Packet}
    (hl : v'.trace = v.trace) (hcons : v.inbox = p :: rest) (hinbox : v'.inbox = rest)
    (hhandling : v'.handling = update v.handling w (some (p, key))) : v'.Mail := by
  have hold {w' : Nat} {q : Packet} {key' : String} (hq : v'.handling w' = some (q, key')) :
      (w' = w ∧ q = p) ∨ v.handling w' = some (q, key') := by
    rw [hhandling, update_apply] at hq
    split at hq
    next hw => cases hq; exact .inl ⟨hw, rfl⟩
    next => exact .inr hq
  have hin {q : Packet} (hq : v'.InHand q) : v.InHand q := by
    rcases hq with hq | ⟨w', key', hq⟩
    · rw [hinbox] at hq
      exact .inl (hcons ▸ List.mem_cons_of_mem _ hq)
    · rcases hold hq with ⟨-, rfl⟩ | hq
      · exact .inl (hcons ▸ List.mem_cons_self)
      · exact .inr ⟨w', key', hq⟩
  have hhead : p ∈ v.inbox := hcons ▸ List.mem_cons_self
  constructor
  · rw [hl]
    exact fun hq => hv.replied (hin hq)
  · rw [hl]
    exact hv.handled_replied
  · rw [hl]
    exact hv.mirrors
  · have honce := hv.inbox_once
    rw [hcons, List.filterMap_cons] at honce
    rw [hinbox]
    split at honce
    · exact honce
    · exact (List.nodup_cons.mp honce).2
  · intro w₁ w₂ p₁ p₂ key₁ key₂ n h₁ h₂ hn₁ hn₂
    rcases hold h₁ with ⟨rfl, rfl⟩ | h₁
    · rcases hold h₂ with ⟨rfl, rfl⟩ | h₂
      · rfl
      · exact absurd hn₂ (hv.inbox_handling hhead h₂ hn₁)
    · rcases hold h₂ with ⟨rfl, rfl⟩ | h₂
      · exact absurd hn₁ (hv.inbox_handling hhead h₁ hn₂)
      · exact hv.handling_once h₁ h₂ hn₁ hn₂
  · intro w' q q' key' n hq hq' hn hn'
    rw [hinbox] at hq
    rcases hold hq' with ⟨rfl, rfl⟩ | hq'
    · have honce := hv.inbox_once
      rw [hcons, List.filterMap_cons, hn', List.nodup_cons] at honce
      exact honce.1 (List.mem_filterMap.mpr ⟨q, hq, hn⟩)
    · exact hv.inbox_handling (hcons ▸ List.mem_cons_of_mem _ hq) hq' hn hn'
  · rw [hl]
    exact fun hq => hv.unhandled (hin hq)

/-- A worker is done with a reply. -/
theorem finish (hv : v.Mail) {w : Nat} {p : Packet} {key : String} {completed : Option Serial}
    (hl : v'.trace = v.trace ++ l) (hget : v.handling w = some (p, key))
    (hnew : ∀ e ∈ l, e.wired = true → e = .handled p completed) (hinbox : v'.inbox = v.inbox)
    (hhandling : v'.handling = update v.handling w none) : v'.Mail := by
  have hold {w' : Nat} {q : Packet} {key' : String} (hq : v'.handling w' = some (q, key')) :
      w' ≠ w ∧ v.handling w' = some (q, key') := by
    rw [hhandling, update_apply] at hq
    split at hq
    next => cases hq
    next hw => exact ⟨hw, hq⟩
  have hin {q : Packet} (hq : v'.InHand q) : v.InHand q := by
    rcases hq with hq | ⟨w', key', hq⟩
    · exact .inl (hinbox ▸ hq)
    · exact .inr ⟨w', key', (hold hq).2⟩
  constructor
  · intro q hq
    rw [hl]
    exact List.mem_append_left _ (hv.replied (hin hq))
  · intro q c hq
    rw [hl, List.mem_append] at hq ⊢
    left
    rcases hq with hq | hq
    · exact hv.handled_replied hq
    · cases hnew _ hq rfl
      exact hv.replied (.inr ⟨w, key, hget⟩)
  · intro q n hq hn
    rw [hl, List.mem_append] at hq
    rcases hq with hq | hq
    · obtain ⟨f, hf, hmirrors⟩ := hv.mirrors hq hn
      exact ⟨f, hl ▸ History.kept hf, hmirrors⟩
    · cases hnew _ hq rfl
  · rw [hinbox]
    exact hv.inbox_once
  · exact fun h₁ h₂ => hv.handling_once (hold h₁).2 (hold h₂).2
  · rw [hinbox]
    exact fun hq hq' => hv.inbox_handling hq (hold hq').2
  · intro q q' c n hq hn hq'
    rw [hl, List.mem_append] at hq'
    rcases hq' with hq' | hq'
    · exact hv.unhandled (hin hq) hn hq'
    · -- The reply that the worker is done with is not the one in hand.
      cases hnew _ hq' rfl
      rcases hq with hq | ⟨w', key', hq⟩
      · exact hv.inbox_handling (hinbox ▸ hq) hget hn
      · exact fun hn' => (hold hq).1 (hv.handling_once (hold hq).2 hget hn hn')

theorem keep (hv : v.Mail) (hmove : Move v v') (hall : ∀ e ∈ newEvents v v', BankMirrors v e) :
    v'.Mail := by
  obtain ⟨l, hl⟩ := hmove.trace_append
  rw [newEvents_eq hl] at hall
  cases hmove.wiring hl with
  | quiet unwired _ mail _ =>
      refine hv.frame hl mail (fun hp => ?_) fun hp => ?_
      all_goals
        have := unwired _ hp
        cases this
  | number e _ _ new _ mail _ => exact hv.frame hl mail (by simp [new]) (by simp [new])
  | place f _ new _ _ mail _ =>
      refine hv.frame hl mail (fun hp => ?_) fun hp => ?_
      all_goals cases new _ hp rfl
  | reply p new _ inbox handling _ =>
      subst new
      exact hv.receive hl inbox handling (hall _ List.mem_cons_self)
  | translate hcons _ new _ inbox handling _ =>
      subst new
      exact hv.take (hl.trans (List.append_nil _)) hcons inbox handling
  | handle _ get new _ _ inbox handling _ => exact hv.finish hl get new inbox handling
  | collect _ new _ mail _ => exact hv.frame hl mail (by simp [new]) (by simp [new])

end Mail

theorem Reachable.mail (hQ : ∀ v e, Q v e → BankMirrors v e) (h : Reachable Q v) : v.Mail :=
  h.invariant (fun _ => Initial.mail) fun _ _ _ hv ⟨hmove, hall⟩ =>
    hv.keep hmove fun e he => hQ _ e (hall e he)

/-! ## What is in use -/

/-- A frame on the wire was there before, or is placed by the move. -/
theorem OnWire.cases (hl : v'.trace = v.trace ++ l) {n : Nat} {f : Frame} (h : v'.OnWire n f) :
    v.OnWire n f ∨ (v.trace.length ≤ n ∧ .placed f ∈ l) := by
  have hplaced := h.placed
  rw [hl] at hplaced
  rcases History.getElem?_append_eq_some.mp hplaced with hold | ⟨hle, hnew⟩
  · refine .inl ⟨hold, fun {p completed} hp => ?_⟩
    have hp' : .handled p completed ∈ v'.trace := hl ▸ List.mem_append_left _ hp
    exact h.unanswered hp'
  · exact .inr ⟨hle, List.mem_of_getElem? hnew⟩

theorem Asked.inserted (hv : v.Held) {i : Serial} {e : String} (h : v.Asked i e) :
    ∃ key tx r, v.Inserted i key tx r := by
  rcases h with ⟨w, c, hc, rfl, -⟩ | ⟨n, f, hf, horigin, -⟩
  · obtain ⟨tx, r, hi, -⟩ := hv.carried_inserted hc
    exact ⟨c.key, tx, r, hi⟩
  · obtain ⟨key, tx, r, hi, -⟩ := hv.placed_inserted (History.mem hf.placed) (i := i)
      (by rw [show f.origin = .ingress i from horigin]; rfl)
    exact ⟨key, tx, r, hi⟩

/-- The STAN of a context is its egress STAN. -/
theorem Held.carried_stan (hv : v.Held) {w : Nat} {c : Carried} {e : String}
    (hc : v.carried w = some c) (he : c.egress = some e) : c.tx.stan = e := by
  obtain ⟨tx, r, -, ⟨hnone, -⟩ | ⟨e', he', htx⟩⟩ := hv.carried_inserted hc
  · rw [hnone] at he
    cases he
  · rw [htx]
    exact Option.some.inj (he'.symm.trans he)

/-- An egress STAN was in use by its instance before, or the move draws it. -/
theorem Asked.cases (hv : v.Held) (hl : v'.trace = v.trace ++ l) (hw : Wiring v v' l) {i : Serial}
    {e : String} (h : v'.Asked i e) :
    v.Asked i e ∨ ∃ w c, v.carried w = some c ∧ c.egress = none ∧ c.serial = i ∧
      l = [.numbered i e] ∧ v'.nat = v.nat.put e c.tx.stan := by
  have hframe {n : Nat} {f : Frame} (hf : v'.OnWire n f) (horigin : f.Renumbered i)
      (hstan : f.transaction.stan = e) (hl' : .placed f ∉ l) : v.Asked i e :=
    .inr ⟨n, f, (hf.cases hl).resolve_right fun h => hl' h.2, horigin, hstan⟩
  have hcontext (hold : CarriedOld v v') {w : Nat} {c : Carried} (hc : v'.carried w = some c)
      (hi : c.serial = i) (he : c.egress = some e) : v.Asked i e := by
    rcases hold hc with hnone | hc
    · rw [hnone] at he
      cases he
    · exact .inl ⟨w, c, hc, hi, he⟩
  cases hw with
  | quiet unwired _ _ carried =>
      left
      rcases h with ⟨w, c, hc, hi, he⟩ | ⟨n, f, hf, horigin, hstan⟩
      · exact hcontext carried hc hi he
      · exact hframe hf horigin hstan fun hmem => by cases unwired _ hmem
  | @number w c e' get fresh new nat _ carried =>
      rcases h with ⟨w', c', hc', hi, he⟩ | ⟨n, f, hf, horigin, hstan⟩
      · rcases carried hc' with hc' | ⟨hserial, he'⟩
        · exact .inl (.inl ⟨w', c', hc', hi, he⟩)
        · have hi' : c.serial = i := hserial.symm.trans hi
          cases he'.symm.trans he
          exact .inr ⟨w, c, get, fresh, hi', hi' ▸ new, nat⟩
      · exact .inl (hframe hf horigin hstan (by simp [new]))
  | place g source new mem _ _ carried =>
      left
      rcases h with ⟨w, c, hc, hi, he⟩ | ⟨n, f, hf, horigin, hstan⟩
      · exact hcontext carried hc hi he
      · rcases hf.cases hl with hold | ⟨-, hnew⟩
        · exact .inr ⟨n, f, hold, horigin, hstan⟩
        · cases new _ hnew rfl
          rcases source with hraw | ⟨w, c, e', hc, he, horigin', htx⟩
          · exact absurd horigin (hraw i)
          · refine .inl ⟨w, c, hc, Origin.ingress.inj (horigin'.symm.trans horigin), ?_⟩
            rw [he, ← hv.carried_stan hc he, ← hstan, htx]
  | reply p new _ _ _ carried =>
      left
      rcases h with ⟨w, c, hc, hi, he⟩ | ⟨n, f, hf, horigin, hstan⟩
      · exact .inl ⟨w, c, carried ▸ hc, hi, he⟩
      · exact hframe hf horigin hstan (by simp [new])
  | translate _ _ new _ _ _ carried | collect _ new _ _ carried =>
      left
      rcases h with ⟨w, c, hc, hi, he⟩ | ⟨n, f, hf, horigin, hstan⟩
      · exact .inl ⟨w, c, carried ▸ hc, hi, he⟩
      · exact hframe hf horigin hstan (by simp [new])
  | handle completed _ new _ _ _ _ carried =>
      left
      rcases h with ⟨w, c, hc, hi, he⟩ | ⟨n, f, hf, horigin, hstan⟩
      · exact .inl ⟨w, c, carried ▸ hc, hi, he⟩
      · exact hframe hf horigin hstan fun hmem => by cases new _ hmem rfl

/-- An entry of the NAT table is as before, or gone, or the move draws its STAN. -/
theorem nat_cases (hw : Wiring v v' l) (e : String) :
    v'.nat.get e = v.nat.get e ∨ v'.nat.get e = none ∨ ∃ i, l = [.numbered i e] := by
  have hput {i : Serial} {e' stan : String} (hnat : v'.nat = v.nat.put e' stan)
      (hl : l = [.numbered i e']) :
      v'.nat.get e = v.nat.get e ∨ v'.nat.get e = none ∨ ∃ i, l = [.numbered i e] := by
    by_cases he : e = e'
    · subst he
      exact .inr (.inr ⟨i, hl⟩)
    · exact .inl (by rw [hnat, DashMap.get_put_ne _ _ he])
  have hremove {e' : String} (hnat : v'.nat = v.nat.remove e') :
      v'.nat.get e = v.nat.get e ∨ v'.nat.get e = none ∨ ∃ i, l = [.numbered i e] := by
    rw [hnat, DashMap.get_remove]
    split
    · exact .inr (.inl rfl)
    · exact .inl rfl
  cases hw with
  | quiet _ nat | place _ _ _ _ nat | reply _ _ nat | handle _ _ _ _ nat =>
      exact .inl (by rw [nat])
  | number e' _ _ new nat => exact hput nat new
  | translate _ _ _ nat | collect _ _ nat => exact hremove nat

/-! ## Uses of one STAN are kept apart -/

/-- Nobody between the guard and the bank uses the STAN. -/
structure Unused (v : Flow) (stan : String) : Prop where
  nat : v.nat.get stan = none
  asked : ∀ i, ¬ v.Asked i stan
  onWire : ∀ {n f}, v.OnWire n f → f.transaction.stan ≠ stan

/-- An egress STAN is drawn when nobody uses it, and a frame that does not go
through the NAT has a STAN that the NAT does not know. -/
def StansApart : Discipline := fun v e =>
  match e with
  | .numbered _ stan => v.Unused stan
  | .placed f => f.Raw → v.nat.get f.transaction.stan = none
  | _ => True

/-- The NAT table translates the STANs in use to what they stand for, or not at all. -/
structure Translates (v : Flow) : Prop where
  asked : ∀ {i e key tx r}, v.Asked i e → v.Inserted i key tx r →
    v.nat.get e = none ∨ v.nat.get e = some tx.stan
  raw : ∀ {n f}, v.OnWire n f → f.Raw → v.nat.get f.transaction.stan = none

theorem Initial.translates (h : v.Initial) : v.Translates := by
  constructor
  · intro i e key tx r _ _
    rw [h.nat, DashMap.get_empty]
    exact .inl rfl
  · intro n f _ _
    rw [h.nat, DashMap.get_empty]

namespace Translates

theorem keep_asked (hv : v.Translates) (hheld : v.Held) (hl : v'.trace = v.trace ++ l)
    (hw : Wiring v v' l) (hall : ∀ e ∈ l, StansApart v e) {i : Serial} {e key : String}
    {tx : UniversalPaymentEvent} {r : Option Responder} (h : v'.Asked i e)
    (hi : v'.Inserted i key tx r) : v'.nat.get e = none ∨ v'.nat.get e = some tx.stan := by
  rcases h.cases hheld hl hw with hold | ⟨w, c, hc, hnone, rfl, -, hnat⟩
  · obtain ⟨key₀, tx₀, r₀, hi₀⟩ := hold.inserted hheld
    obtain ⟨-, rfl, -⟩ := (hi₀.grow hl).unique hi
    rcases nat_cases hw e with hsame | hgone | ⟨j, hnew⟩
    · rw [hsame]
      exact hv.asked hold hi₀
    · exact .inl hgone
    · subst hnew
      exact absurd hold ((hall _ List.mem_cons_self).asked i)
  · obtain ⟨tx₀, r₀, hi₀, ⟨-, htx⟩ | ⟨e', he', -⟩⟩ := hheld.carried_inserted hc
    · obtain ⟨-, rfl, -⟩ := (hi₀.grow hl).unique hi
      rw [hnat, DashMap.get_put_self, htx]
      exact .inr rfl
    · rw [hnone] at he'
      cases he'

theorem keep_raw (hv : v.Translates) (hl : v'.trace = v.trace ++ l) (hw : Wiring v v' l)
    (hall : ∀ e ∈ l, StansApart v e) {n : Nat} {f : Frame} (h : v'.OnWire n f) (hraw : f.Raw) :
    v'.nat.get f.transaction.stan = none := by
  rcases h.cases hl with hold | ⟨-, hnew⟩
  · rcases nat_cases hw f.transaction.stan with hsame | hgone | ⟨j, hnew⟩
    · rw [hsame]
      exact hv.raw hold hraw
    · exact hgone
    · subst hnew
      exact absurd rfl ((hall _ List.mem_cons_self).onWire hold)
  · rcases nat_cases hw f.transaction.stan with hsame | hgone | ⟨j, rfl⟩
    · rw [hsame]
      exact hall _ hnew hraw
    · exact hgone
    · simp at hnew

end Translates

theorem Reachable.translates (hQ : ∀ v e, Q v e → StansApart v e) (h : Reachable Q v) :
    v.Translates := by
  refine h.invariant (fun _ => Initial.translates) fun v v' hreach hv ⟨hmove, hall⟩ => ?_
  obtain ⟨l, hl⟩ := hmove.trace_append
  rw [newEvents_eq hl] at hall
  have hapart (e : Event) (he : e ∈ l) : StansApart v e := hQ _ e (hall e he)
  exact ⟨hv.keep_asked (Reachable.held hreach) hl (hmove.wiring hl) hapart,
    hv.keep_raw hl (hmove.wiring hl) hapart⟩

end Flow

end Iso8583Switch
