import Iso8583Switch.Hsm.HsmClient
import Iso8583Switch.Library.LossyText

/-!
# Which HSM requests can be built

All three requests cut the account number out of the PAN in the same way.  The guard lets a
PAN of twelve bytes through, and the cut begins thirteen bytes before the end.  A longer PAN
is cut wherever these bytes are, inside a character or not.
-/

namespace Iso8583Switch

open Text

/-- The requests that the HSM task can make for a transaction. -/
def hsmRequests (fpan pinBlock : Bytes) (mac pvv : String) : List HsmRequest :=
  [.verifyPin (fromUtf8Lossy pinBlock) (fromUtf8Lossy fpan) pvv,
    .translatePin (fromUtf8Lossy pinBlock) (fromUtf8Lossy fpan),
    .verifyMac mac (fromUtf8Lossy fpan)]

/-- The twelve characters before the last one. -/
def accountNumber (pan : String) : String :=
  String.ofList ((pan.toList.drop (pan.toList.length - 13)).take 12)

/-- The PAN has no twelve bytes, or more than twelve and is cut between characters. -/
def AccountReadable (pan : String) : Prop :=
  len pan < 12 ∨
    (13 ≤ len pan ∧ isCharBoundary pan (len pan - 13) = true ∧
      isCharBoundary pan (len pan - 1) = true)

theorem isSome_formattedPan (pan : String) :
    (formattedPan pan).isSome = true ↔ AccountReadable pan := by
  rw [formattedPan, AccountReadable]
  split
  next htwelve =>
    split
    next heq =>
      refine iff_of_false Bool.noConfusion ?_
      omega
    next hne =>
      rw [isSome_slice, decide_eq_true (by omega), Bool.true_and, Bool.and_eq_true]
      constructor
      · exact fun h => .inr ⟨by omega, h⟩
      · rintro (hshort | ⟨-, h⟩)
        · omega
        · exact h
  next hshort => exact iff_of_true rfl (.inl (by omega))

/-- In ASCII, the bytes that are cut out are the characters. -/
theorem formattedPan_ascii {pan : String} (hascii : ∀ c ∈ pan.toList, c.toNat < 0x80)
    (hlong : 13 ≤ pan.toList.length) : formattedPan pan = some (accountNumber pan) := by
  have hsize (cs : List Char) (hcs : cs ⊆ pan.toList) : len (String.ofList cs) = cs.length := by
    rw [len_eq_sum, String.toList_ofList, size_of_ascii fun c hc => hascii c (hcs hc)]
  generalize hn : pan.toList.length - 13 = n
  have hlen : len pan = n + 13 := by
    rw [len_eq_sum, size_of_ascii hascii]
    omega
  have hparts : pan = String.ofList (pan.toList.take n) ++ accountNumber pan ++
      String.ofList ((pan.toList.drop n).drop 12) := by
    refine String.toList_injective ?_
    rw [accountNumber, hn]
    simp only [String.toList_append, String.toList_ofList, List.append_assoc,
      List.take_append_drop]
  have hfront : len (String.ofList (pan.toList.take n)) = n := by
    rw [hsize _ (List.take_subset _ _), List.length_take_of_le (by omega)]
  have haccount : len (accountNumber pan) = 12 := by
    rw [accountNumber, hsize _ (List.Subset.trans (List.take_subset _ _) (List.drop_subset _ _)),
      List.length_take_of_le (by rw [List.length_drop]; omega)]
  have hslice := slice_append (String.ofList (pan.toList.take n)) (accountNumber pan)
    (String.ofList ((pan.toList.drop n).drop 12))
  rw [← hparts, hfront, haccount] at hslice
  rw [formattedPan, if_pos (by omega), if_neg (by omega), hlen]
  exact hslice

/-- A message is built, and it has the account number of a PAN of ASCII characters. -/
def HsmRequest.Built (request : HsmRequest) (header : String) : Prop :=
  ∃ msg, request.message header = some msg ∧
    ((∀ c ∈ request.pan.toList, c.toNat < 0x80) → 13 ≤ request.pan.toList.length →
      msg.payload = request.payload (accountNumber request.pan))

theorem HsmRequest.built_iff (request : HsmRequest) (header : String) :
    request.Built header ↔ AccountReadable request.pan := by
  rw [← isSome_formattedPan]
  constructor
  · rintro ⟨msg, hmessage, -⟩
    rw [message, Option.map_eq_some_iff] at hmessage
    obtain ⟨account, haccount, -⟩ := hmessage
    rw [haccount]
    rfl
  · intro h
    obtain ⟨account, haccount⟩ := Option.isSome_iff_exists.mp h
    refine ⟨_, by rw [message, haccount]; rfl, fun hascii hlong => ?_⟩
    rw [formattedPan_ascii hascii hlong] at haccount
    rw [Option.some.inj haccount]

/-- The three requests for a transaction can be built exactly for these PANs. -/
theorem hsm_requests_are_built_iff (fpan pinBlock : Bytes) (mac pvv header : String) :
    (∀ request ∈ hsmRequests fpan pinBlock mac pvv, request.Built header) ↔
      AccountReadable (fromUtf8Lossy fpan) := by
  simp only [HsmRequest.built_iff]
  constructor
  · exact fun h => h _ List.mem_cons_self
  · intro h request hrequest
    simp only [hsmRequests, List.mem_cons, List.not_mem_nil, or_false] at hrequest
    rcases hrequest with rfl | rfl | rfl
    · exact h
    · exact h
    · exact h

/-- A card number of twelve digits. -/
theorem twelve_digits_panic : ¬ ∀ (fpan pinBlock : Bytes) (mac pvv header : String),
    ∀ request ∈ hsmRequests fpan pinBlock mac pvv, request.Built header := by
  intro h
  obtain ⟨msg, hmessage, -⟩ :=
    h (asBytes "501812345678") (asBytes "0123456789ABCDEF") "" "1234" "0000" _ List.mem_cons_self
  cases hmessage

end Iso8583Switch
