import SwiftBite.Verified.Forgery

/-! # The signature header

`verifyKashierSignature` compares decoded bytes.  The decoder stops at the first pair that is no
byte, so that a header may carry on after the digest.
-/

set_option autoImplicit false

namespace SwiftBite.Verified.SignatureHeader

open Kashier Forgery

variable {hmac : Text → Text → Text} {payload : Json} {keys : List Json} {signature secret : Text}

/-- Sixty-four hexadecimal digits, as `digest("hex")` writes them. -/
def IsDigest (digest : Text) : Prop :=
  digest.length = 64 ∧ ∀ unit ∈ digest, unit ∈ text "0123456789abcdef"

/-- Of the other letters none has a digit for its lower case. -/
def lowerUnit (unit : UInt16) : UInt16 := if 65 ≤ unit && unit ≤ 90 then unit + 32 else unit

def toLowerCase (value : Text) : Text := value.map lowerUnit

/-! ## The order of the keys -/

theorem textLe_total (a b : Text) : textLe a b ∨ textLe b a := by
  induction a generalizing b with
  | nil => exact Or.inl rfl
  | cons x a inductionHypothesis =>
    cases b with
    | nil => exact Or.inr rfl
    | cons y b =>
      simp only [textLe]
      have tails := inductionHypothesis b
      grind

theorem textLe_antisymm {a b : Text} (le : textLe a b) (ge : textLe b a) : a = b := by
  induction a generalizing b with
  | nil =>
    cases b with
    | nil => rfl
    | cons => simp [textLe] at ge
  | cons x a inductionHypothesis =>
    cases b with
    | nil => simp [textLe] at le
    | cons y b =>
      simp only [textLe] at le ge
      have tails := inductionHypothesis (b := b)
      grind

theorem textLe_trans {a b c : Text} (first : textLe a b) (second : textLe b c) : textLe a c := by
  induction a generalizing b c with
  | nil => rfl
  | cons x a inductionHypothesis =>
    cases b with
    | nil => simp [textLe] at first
    | cons y b =>
      cases c with
      | nil => simp [textLe] at second
      | cons z c =>
        simp only [textLe] at first second ⊢
        have tails := inductionHypothesis (b := b) (c := c)
        grind

theorem sorted_perm {names names' : List Text} (same : names.Perm names') :
    (names.insertionSort fun a b => textLe a b) = names'.insertionSort fun a b => textLe a b := by
  have total : Std.Total fun a b : Text => (textLe a b : Prop) := ⟨textLe_total⟩
  have trans : IsTrans Text fun a b => textLe a b := ⟨fun _ _ _ => textLe_trans⟩
  refine List.Perm.eq_of_pairwise (fun a b _ _ => textLe_antisymm) (List.pairwise_insertionSort _ _)
    (List.pairwise_insertionSort _ _) ?_
  exact ((List.perm_insertionSort _ names).trans same).trans (List.perm_insertionSort _ names').symm

theorem mapM_perm {α β : Type} {f : α → Option β} {l l' : List α} {m : List β} (same : l.Perm l')
    (mapped : l.mapM f = some m) : ∃ m', l'.mapM f = some m' ∧ m.Perm m' := by
  induction same generalizing m with
  | nil => exact ⟨m, mapped, .refl m⟩
  | cons a _ inductionHypothesis =>
    simp only [List.mapM_cons, Option.bind_eq_bind, Option.pure_def, Option.bind_eq_some_iff,
      Option.some.injEq] at mapped ⊢
    obtain ⟨b, image, tail, tailMapped, rfl⟩ := mapped
    obtain ⟨tail', tailMapped', tails⟩ := inductionHypothesis tailMapped
    exact ⟨b :: tail', ⟨b, image, tail', tailMapped', rfl⟩, tails.cons b⟩
  | swap a a' l =>
    simp only [List.mapM_cons, Option.bind_eq_bind, Option.pure_def, Option.bind_eq_some_iff,
      Option.some.injEq] at mapped ⊢
    obtain ⟨b', image', _, ⟨b, image, tail, tailMapped, rfl⟩, rfl⟩ := mapped
    exact ⟨b :: b' :: tail,
      ⟨b, image, b' :: tail, ⟨b', image', tail, tailMapped, rfl⟩, rfl⟩, .swap _ _ _⟩
  | trans _ _ first second =>
    obtain ⟨middle, middleMapped, toMiddle⟩ := first mapped
    obtain ⟨m', mapped', fromMiddle⟩ := second middleMapped
    exact ⟨m', mapped', toMiddle.trans fromMiddle⟩

/-- When one order throws, so does every other. -/
theorem queryString_perm {keys' : List Json} (same : keys.Perm keys') :
    queryString payload keys = queryString payload keys' := by
  unfold queryString
  cases mapped : keys.mapM Json.toText with
  | some names =>
    obtain ⟨names', mapped', perm⟩ := mapM_perm same mapped
    simp only [mapped', Option.bind_eq_bind, Option.bind_some, sorted_perm perm]
  | none =>
    cases mapped' : keys'.mapM Json.toText with
    | none => rfl
    | some names' =>
      obtain ⟨names, isNames, _⟩ := mapM_perm same.symm mapped'
      rw [mapped] at isNames
      cases isNames

theorem verify_perm {keys' : List Json} (same : keys.Perm keys') :
    verifyKashierSignature hmac payload keys signature secret =
      verifyKashierSignature hmac payload keys' signature secret := by
  unfold verifyKashierSignature
  rw [queryString_perm same, same.isEmpty_eq]

/-! ## The decoder -/

theorem lowerHexDigit_toNat {n : ℕ} (digit : n < 16) :
    (lowerHexDigit n).toNat = if n < 10 then 48 + n else 87 + n := by
  rw [lowerHexDigit, UInt16.toNat_ofNat']
  split <;> omega

theorem lowerUnit_toNat (unit : UInt16) :
    (lowerUnit unit).toNat = if 65 ≤ unit.toNat ∧ unit.toNat ≤ 90 then unit.toNat + 32
      else unit.toNat := by
  simp only [lowerUnit, Bool.and_eq_true, decide_eq_true_eq, UInt16.le_iff_toNat_le,
    UInt16.reduceToNat]
  split
  · simp only [UInt16.toNat_add, UInt16.reduceToNat]
    omega
  · rfl

theorem hexValue_toNat (unit : UInt16) :
    hexValue unit = if 48 ≤ unit.toNat ∧ unit.toNat ≤ 57 then some (unit.toNat - 48)
      else if 97 ≤ unit.toNat ∧ unit.toNat ≤ 102 then some (unit.toNat - 87)
      else if 65 ≤ unit.toNat ∧ unit.toNat ≤ 70 then some (unit.toNat - 55) else none := by
  simp only [hexValue, Bool.and_eq_true, decide_eq_true_eq, UInt16.le_iff_toNat_le,
    UInt16.reduceToNat]

/-- The digits of either case have the value of the lower one. -/
theorem hexValue_eq_some {unit : UInt16} {n : ℕ} :
    hexValue unit = some n ↔ n < 16 ∧ lowerUnit unit = lowerHexDigit n := by
  rw [hexValue_toNat]
  constructor
  · intro value
    have digit : n < 16 := by grind
    refine ⟨digit, UInt16.toNat_inj.1 ?_⟩
    rw [lowerUnit_toNat, lowerHexDigit_toNat digit]
    grind
  · rintro ⟨digit, lower⟩
    have lower := congrArg UInt16.toNat lower
    rw [lowerUnit_toNat, lowerHexDigit_toNat digit] at lower
    grind

theorem hexValue_inj {unit unit' : UInt16} {n : ℕ} (value : hexValue unit = some n) :
    hexValue unit' = some n ↔ lowerUnit unit' = lowerUnit unit := by
  obtain ⟨digit, lower⟩ := hexValue_eq_some.1 value
  rw [hexValue_eq_some, lower]
  exact and_iff_right digit

theorem fromHex_cons {high low : UInt16} {a b : ℕ} (isHigh : hexValue high = some a)
    (isLow : hexValue low = some b) (rest : Text) :
    fromHex (high :: low :: rest) = (16 * a + b) :: fromHex rest := by
  simp only [fromHex, isHigh, isLow]

/-- A text decodes to a byte first only when it begins with a pair of digits. -/
theorem fromHex_eq_cons {received : Text} {byte : ℕ} {bytes : List ℕ}
    (decoded : fromHex received = byte :: bytes) :
    ∃ high low rest a b, received = high :: low :: rest ∧ hexValue high = some a ∧
    hexValue low = some b ∧
      16 * a + b = byte ∧ fromHex rest = bytes := by
  unfold fromHex at decoded
  split at decoded
  next high low rest =>
    split at decoded
    next a b isHigh isLow =>
      obtain ⟨rfl, rfl⟩ := List.cons.inj decoded
      exact ⟨high, low, rest, a, b, rfl, isHigh, isLow, rfl, rfl⟩
    next => cases decoded
  next => cases decoded

theorem pair_eq_iff {high low high' low' : UInt16} {a b a' b' : ℕ} (isHigh : hexValue high = some a)
    (isLow : hexValue low = some b) (isHigh' : hexValue high' = some a')
    (isLow' : hexValue low' = some b') :
    16 * a' + b' = 16 * a + b ↔
    lowerUnit high' = lowerUnit high ∧ lowerUnit low' = lowerUnit low := by
  rw [← hexValue_inj isHigh, ← hexValue_inj isLow, isHigh', isLow', Option.some.injEq,
    Option.some.injEq]
  have := (hexValue_eq_some.1 isLow).1
  have := (hexValue_eq_some.1 isLow').1
  omega

/-- What decodes to the bytes of some digits are these digits, in either case, and then anything
that begins with no byte. -/
theorem fromHex_eq_iff {digits received : Text} (digital : ∀ unit ∈ digits, (hexValue unit).isSome)
    (even : digits.length % 2 = 0) :
    fromHex received = fromHex digits ↔
      ∃ head rest, received = head ++ rest ∧ toLowerCase head = toLowerCase digits ∧
      fromHex rest = [] := by
  induction digits using fromHex.induct generalizing received with
  | case1 high low digits a b isLow isHigh inductionHypothesis =>
    -- The two digits of a byte, and then the rest.
    have tails : ∀ received, fromHex received = fromHex digits ↔
        ∃ head rest, received = head ++ rest ∧ toLowerCase head = toLowerCase digits ∧
        fromHex rest = [] :=
      fun _ => inductionHypothesis (fun unit member =>
        digital unit (by simp [member])) (by simp only [List.length_cons] at even; omega)
    rw [fromHex_cons isHigh isLow]
    constructor
    · intro decoded
      obtain ⟨high', low', received, a', b', rfl, isHigh', isLow', sameByte, sameBytes⟩ :=
        fromHex_eq_cons decoded
      obtain ⟨head, rest, rfl, same, ended⟩ := (tails received).1 sameBytes
      obtain ⟨sameHigh, sameLow⟩ := (pair_eq_iff isHigh isLow isHigh' isLow').1 sameByte
      refine ⟨high' :: low' :: head, rest, rfl, ?_, ended⟩
      simpa [toLowerCase, sameHigh, sameLow] using same
    · rintro ⟨head, rest, rfl, same, ended⟩
      obtain ⟨high', head, rfl, sameHigh, same⟩ := List.map_eq_cons_iff.1 same
      obtain ⟨low', head, rfl, sameLow, same⟩ := List.map_eq_cons_iff.1 same
      have isHigh' := (hexValue_inj isHigh).2 sameHigh
      have isLow' := (hexValue_inj isLow).2 sameLow
      rw [List.cons_append, List.cons_append, fromHex_cons isHigh' isLow',
        (tails (head ++ rest)).2 ⟨head, rest, rfl, same, ended⟩]
  | case2 high low digits noByte =>
    obtain ⟨a, isHigh⟩ := Option.isSome_iff_exists.1 (digital high (by simp))
    obtain ⟨b, isLow⟩ := Option.isSome_iff_exists.1 (digital low (by simp))
    exact absurd isLow (noByte a b isHigh)
  | case3 digits short =>
    rcases digits with _ | ⟨high, _ | ⟨low, rest⟩⟩
    · constructor
      · intro ended
        exact ⟨[], received, rfl, rfl, ended⟩
      · rintro ⟨head, rest, rfl, same, ended⟩
        obtain rfl : head = [] := by simpa [toLowerCase] using same
        exact ended
    · simp at even
    · exact absurd rfl (short high low rest)

/-! ## The header -/

theorem digital_of_isDigest {digest : Text} (isDigest : IsDigest digest) :
    ∀ unit ∈ digest, (hexValue unit).isSome := by
  have all : ((text "0123456789abcdef").all fun unit => (hexValue unit).isSome) = true := by decide
  intro unit member
  exact List.all_eq_true.1 all unit (isDigest.2 unit member)

theorem toLowerCase_digest {digest : Text} (isDigest : IsDigest digest) :
    toLowerCase digest = digest := by
  have all : ((text "0123456789abcdef").all fun unit => lowerUnit unit == unit) = true := by decide
  refine (List.map_congr_left fun unit member => ?_).trans (List.map_id digest)
  exact eq_of_beq (List.all_eq_true.1 all unit (isDigest.2 unit member))

theorem decoded_eq_iff {digest : Text} (isDigest : IsDigest digest) :
    fromHex signature = fromHex digest ↔
    ∃ head rest, signature = head ++ rest ∧ toLowerCase head = digest ∧ fromHex rest = [] := by
  rw [fromHex_eq_iff (digital_of_isDigest isDigest) (by rw [isDigest.1]),
    toLowerCase_digest isDigest]

/-- What is accepted. -/
theorem accepted_iff (digests : ∀ secret message, IsDigest (hmac secret message))
    (nonempty : keys ≠ []) :
    verifyKashierSignature hmac payload keys signature secret = some true ↔
      ∃ query, queryString payload keys = some query ∧
        ∃ head rest, signature = head ++ rest ∧ toLowerCase head = hmac secret query ∧
        fromHex rest = [] := by
  constructor
  · intro accepted
    obtain ⟨_, _, query, isQuery, same⟩ := verify_eq_true accepted
    exact ⟨query, isQuery, (decoded_eq_iff (digests secret query)).1 same.symm⟩
  · rintro ⟨query, isQuery, head, rest, rfl, same, ended⟩
    have given : (head ++ rest).isEmpty = false := by
      have long := (digests secret query).1
      rw [← same, toLowerCase, List.length_map] at long
      rw [List.isEmpty_eq_false_iff]
      intro none
      rw [(List.append_eq_nil_iff.1 none).1] at long
      simp at long
    exact verify_of_query keys given nonempty isQuery
      ((decoded_eq_iff (digests secret query)).2 ⟨head, rest, rfl, same, ended⟩).symm

/-- The header is the digest and something more, which begins with no pair of hexadecimal digits. -/
def CarriesOn (digest signature : Text) : Prop :=
  ∃ head rest, signature = head ++ rest ∧ toLowerCase head = digest ∧ rest ≠ [] ∧ fromHex rest = []

/-- A header is accepted when it is the digest of the signed string, and then only; and the keys may
be named in any order. -/
def Exact (hmac : Text → Text → Text) (payload : Json) (keys : List Json)
    (signature secret : Text) : Prop :=
  (verifyKashierSignature hmac payload keys signature secret = some true ↔
    ∃ query, queryString payload keys = some query ∧ toLowerCase signature = hmac secret query) ∧
  ∀ keys', keys'.Perm keys →
    verifyKashierSignature hmac payload keys' signature secret =
      verifyKashierSignature hmac payload keys signature secret

theorem signature_is_matched_exactly_iff (hmac : Text → Text → Text)
    (digests : ∀ secret message, IsDigest (hmac secret message)) (payload : Json) (keys : List Json)
    (nonempty : keys ≠ []) (signature secret : Text) :
    Exact hmac payload keys signature secret ↔
      ∀ query, queryString payload keys = some query →
      ¬ CarriesOn (hmac secret query) signature := by
  constructor
  · rintro ⟨exact, _⟩ query isQuery ⟨head, rest, rfl, same, more, ended⟩
    have accepted :=
      (accepted_iff digests nonempty).2 ⟨query, isQuery, head, rest, rfl, same, ended⟩
    obtain ⟨query', isQuery', whole⟩ := exact.1 accepted
    obtain rfl : query = query' := Option.some.inj (isQuery.symm.trans isQuery')
    have lengths := congrArg List.length (whole.trans same.symm)
    simp only [toLowerCase, List.length_map, List.length_append] at lengths
    exact more (List.length_eq_zero_iff.1 (by omega))
  · intro ends
    refine ⟨?_, fun keys' same => verify_perm same⟩
    rw [accepted_iff digests nonempty]
    constructor
    · rintro ⟨query, isQuery, head, rest, rfl, same, ended⟩
      have nothing : rest = [] := by
        by_contra more
        exact ends query isQuery ⟨head, rest, rfl, same, more, ended⟩
      exact ⟨query, isQuery, by rw [nothing, List.append_nil, same]⟩
    · rintro ⟨query, isQuery, same⟩
      exact ⟨query, isQuery, signature, [], by simp, same, rfl⟩

/-! ## A signature with a letter too many -/

/-- HMAC-SHA256 where its value is known, and otherwise as many digits. -/
def knownHmac (secret message : Text) : Text :=
  if secret = text "api-key" ∧ message = genuineQuery then genuineSignature
  else List.replicate 64 48

theorem isDigest_knownHmac (secret message : Text) : IsDigest (knownHmac secret message) := by
  have hexadecimal : (genuineSignature.all fun unit => (text "0123456789abcdef").contains unit) =
      true := by decide +kernel
  have genuine : IsDigest genuineSignature :=
    ⟨by decide +kernel, fun unit member =>
      List.contains_iff_mem.1 (List.all_eq_true.1 hexadecimal unit member)⟩
  unfold knownHmac
  split
  · exact genuine
  · refine ⟨by simp, fun unit member => ?_⟩
    rw [List.eq_of_mem_replicate member]
    decide

theorem genuine_signature_is_matched_exactly :
    Exact knownHmac (dataOf genuine) (signatureKeysOf (dataOf genuine)) genuineSignature
      (text "api-key") ↔
      ∀ query, queryString (dataOf genuine) (signatureKeysOf (dataOf genuine)) = some query →
        ¬ CarriesOn (knownHmac (text "api-key") query) genuineSignature :=
  signature_is_matched_exactly_iff knownHmac isDigest_knownHmac (dataOf genuine)
    (signatureKeysOf (dataOf genuine))
    (by decide +kernel) genuineSignature (text "api-key")

theorem longer_signature_is_accepted :
    (∀ secret message, IsDigest (knownHmac secret message)) ∧
      queryString (dataOf genuine) (signatureKeysOf (dataOf genuine)) = some genuineQuery ∧
      knownHmac (text "api-key") genuineQuery = genuineSignature ∧
      verifyKashierSignature knownHmac (dataOf genuine) (signatureKeysOf (dataOf genuine))
        (genuineSignature ++ text "z")
        (text "api-key") = some true ∧
      ¬ Exact knownHmac (dataOf genuine) (signatureKeysOf (dataOf genuine))
        (genuineSignature ++ text "z") (text "api-key") := by
  have isQuery : queryString (dataOf genuine) (signatureKeysOf (dataOf genuine)) =
      some genuineQuery := by decide +kernel
  have known : knownHmac (text "api-key") genuineQuery = genuineSignature := by decide +kernel
  have accepted : verifyKashierSignature knownHmac (dataOf genuine)
      (signatureKeysOf (dataOf genuine))
      (genuineSignature ++ text "z") (text "api-key") = some true := by decide +kernel
  have longer : toLowerCase (genuineSignature ++ text "z") ≠ genuineSignature := by decide +kernel
  refine ⟨isDigest_knownHmac, isQuery, known, accepted, fun exact => ?_⟩
  obtain ⟨query, isQuery', same⟩ := exact.1.1 accepted
  obtain rfl : genuineQuery = query := Option.some.inj (isQuery.symm.trans isQuery')
  rw [known] at same
  exact longer same

end SwiftBite.Verified.SignatureHeader
