import XgtChain.Base.Decimal
import XgtChain.Base.Records
import XgtChain.Protocol.Validate

/-!
# Asset symbols as text and as bytes

A symbol is one number: the data digits of its numerical identifier (NAI), a control bit and the
precision.
-/

namespace Xgt

open Base List

def dammTable : List Nat :=
  [0, 30, 10, 70, 50, 90, 80, 60, 40, 20,
   70, 0, 90, 20, 10, 50, 40, 80, 60, 30,
   40, 20, 0, 60, 80, 70, 10, 30, 50, 90,
   10, 70, 50, 0, 90, 80, 30, 40, 20, 60,
   60, 10, 20, 30, 0, 40, 50, 90, 70, 80,
   30, 60, 70, 40, 20, 0, 90, 50, 80, 10,
   50, 80, 60, 90, 70, 20, 0, 10, 30, 40,
   80, 90, 40, 50, 30, 60, 20, 0, 10, 70,
   90, 40, 30, 80, 60, 10, 70, 20, 0, 50,
   20, 50, 80, 10, 40, 30, 60, 70, 90, 0]

def dammChecksum8digit (value : Nat) : Nat :=
  let digits := [value / 10 ^ 7, value / 10 ^ 6 % 10, value / 10 ^ 5 % 10, value / 10 ^ 4 % 10,
    value / 10 ^ 3 % 10, value / 10 ^ 2 % 10, value / 10 % 10, value % 10]
  digits.foldl (fun x d => dammTable.getD (x + d) 0) 0 / 10

def AssetSymbol.toNai (sym : AssetSymbol) : Nat :=
  let naiDataDigits := if sym = xgtSymbol then 2 else sym.assetNum / 32
  naiDataDigits * 10 + dammChecksum8digit naiDataDigits

def assetNumFromNai (nai decimalPlaces : Nat) : Result Nat := do
  fcAssert (1 ≤ nai / 10 ∧ nai / 10 ≤ 99999999) "NAI out of range"
  fcAssert (nai % 10 = dammChecksum8digit (nai / 10)) "Invalid check digit"
  if nai / 10 = 2 then
    fcAssert (decimalPlaces = 8) "decimal_places == XGT_PRECISION_XGT"
    pure xgtSymbol.assetNum
  else
    fcAssert (decimalPlaces ≤ 12) "Invalid decimal_places"
    pure (nai / 10 * 32 + 16 + decimalPlaces)

theorem dammChecksum8digit_lt (value : Nat) : dammChecksum8digit value < 10 := by
  have hentry (i : Nat) : dammTable.getD i 0 ≤ 90 := by
    have hall : ∀ x ∈ dammTable, x ≤ 90 := by decide
    rw [getD_eq_getElem?_getD]
    cases hi : dammTable[i]? with
    | none => exact Nat.zero_le _
    | some x => exact hall x (mem_of_getElem? hi)
  unfold dammChecksum8digit
  simp only [foldl_cons, foldl_nil]
  exact Nat.div_lt_of_lt_mul (Nat.lt_of_le_of_lt (hentry _) (by decide))

theorem nai_div (digits : Nat) : (digits * 10 + dammChecksum8digit digits) / 10 = digits := by
  have := dammChecksum8digit_lt digits
  omega

variable {sym : AssetSymbol}

theorem AssetSymbol.toNai_eq (h : sym ≠ xgtSymbol) :
    sym.toNai = sym.assetNum / 32 * 10 + dammChecksum8digit (sym.assetNum / 32) := by
  simp only [AssetSymbol.toNai, if_neg h]

theorem AssetSymbol.toNai_div (h : sym ≠ xgtSymbol) : sym.toNai / 10 = sym.assetNum / 32 := by
  rw [AssetSymbol.toNai_eq h, nai_div]

theorem AssetSymbol.toNai_inj {a b : AssetSymbol} (ha : a ≠ xgtSymbol) (hb : b ≠ xgtSymbol) :
    a.toNai = b.toNai ↔ a.assetNum / 32 = b.assetNum / 32 := by
  constructor
  · intro h
    rw [← toNai_div ha, ← toNai_div hb, h]
  · intro h
    rw [toNai_eq ha, toNai_eq hb, h]

theorem AssetSymbol.ne_xgt (h : sym.assetNum / 16 % 2 = 1) : sym ≠ xgtSymbol := by
  rintro rfl
  exact absurd h (by decide)

/-! ## Text -/

namespace AssetSymbol

variable {sym : AssetSymbol}

def toNaiString (sym : AssetSymbol) : List Char := '@' :: '@' :: decimal 8 sym.toNai

def splitSign : List Char → Bool × List Char
  | '-' :: digits => (true, digits)
  | '+' :: digits | digits => (false, digits)

def lexicalCastUint32 (cs : List Char) : Result Nat :=
  match parseDecimal (splitSign cs).2 with
  | none => .error ⟨.other, "bad lexical cast"⟩
  | some n =>
    if n < 2 ^ 32 then .ok (if (splitSign cs).1 then (2 ^ 32 - n) % 2 ^ 32 else n)
    else .error ⟨.other, "bad lexical cast"⟩

def fromNaiString (p : List Char) (decimalPlaces : Nat) : Result AssetSymbol := do
  fcAssert (p.length = 11) "Incorrect NAI string length"
  fcAssert (p.take 2 = ['@', '@']) "Invalid NAI string prefix"
  let nai ← lexicalCastUint32 (p.drop 2)
  let assetNum ← assetNumFromNai nai decimalPlaces
  pure ⟨assetNum⟩

def toVariant (sym : AssetSymbol) : Variant :=
  .object [("nai", .string (String.ofList sym.toNaiString)), ("precision", .uint64 sym.decimals)]

def precisionOf (o : List (String × Variant)) : Result Nat :=
  match o.lookup "precision" with
  | none => .ok 0
  | some (.uint64 n) => do
    fcAssert (n ≤ 12) "Expected decimals to be less than or equal to 12"
    pure n
  | some _ => .error ⟨.assertException, "Expected an unsigned integer type for value 'precision'."⟩

def fromVariant : Variant → Result AssetSymbol
  | .object o =>
    match o.lookup "nai" with
    | none => .error ⟨.assertException, "Expected key 'nai'."⟩
    | some (.string nai) => do
      let precision ← precisionOf o
      fromNaiString nai.toList precision
    | some _ => .error ⟨.assertException, "Expected a string type for value 'nai'."⟩
  | _ => .error ⟨.assertException, "Asset symbol is expected to be an object."⟩

theorem validate_ok_iff :
    sym.validate = .ok () ↔ sym = xgtSymbol ∨ 1 ≤ sym.assetNum / 32 ∧ sym.assetNum / 32 ≤ 99999999 ∧
      sym.assetNum / 16 % 2 = 1 ∧ sym.assetNum % 16 ≤ 12 := by
  unfold validate
  split_ifs with hxgt
  · simp [hxgt, pure, Except.pure]
  · simp [hxgt]

theorem splitSign_of_digits {cs : List Char} (h : ∀ c ∈ cs, (digitValue? c).isSome) :
    splitSign cs = (false, cs) := by
  unfold splitSign
  split
  · exact absurd (h '-' (.head _)) (by decide)
  · exact absurd (h '+' (.head _)) (by decide)
  · rfl

theorem lexicalCastUint32_decimal {n : Nat} (h : n < 10 ^ 9) : lexicalCastUint32 (decimal 8 n) = .ok n := by
  have hsign : splitSign (decimal 8 n) = (false, decimal 8 n) :=
    splitSign_of_digits fun c hc => digitValue?_of_mem h hc
  have hfits : n < 2 ^ 32 := by omega
  simp only [lexicalCastUint32, hsign, parseDecimal_decimal h, if_pos hfits, Bool.false_eq_true, if_false]

def naiDigits (sym : AssetSymbol) : Nat := if sym = xgtSymbol then 2 else sym.assetNum / 32

theorem toNai_eq_naiDigits (sym : AssetSymbol) :
    sym.toNai = sym.naiDigits * 10 + dammChecksum8digit sym.naiDigits := rfl

section

variable (h : sym.validate = .ok ())
include h

theorem naiDigits_of_valid : 1 ≤ sym.naiDigits ∧ sym.naiDigits ≤ 99999999 := by
  unfold naiDigits
  split_ifs with hxgt
  · decide
  · rcases validate_ok_iff.1 h with heq | ⟨hlow, hhigh, -⟩
    · exact absurd heq hxgt
    · exact ⟨hlow, hhigh⟩

theorem fromNaiString_eq (decimalPlaces : Nat) :
    fromNaiString sym.toNaiString decimalPlaces =
      if sym.naiDigits = 2 then
        fcAssert (decimalPlaces = 8) "decimal_places == XGT_PRECISION_XGT" >>= fun _ => pure xgtSymbol
      else
        fcAssert (decimalPlaces ≤ 12) "Invalid decimal_places" >>= fun _ =>
          pure ⟨sym.naiDigits * 32 + 16 + decimalPlaces⟩ := by
  obtain ⟨hlow, hhigh⟩ := naiDigits_of_valid h
  have hcheck := dammChecksum8digit_lt sym.naiDigits
  have hnai : sym.toNai < 10 ^ 9 := by
    rw [toNai_eq_naiDigits]
    omega
  have hdiv : sym.toNai / 10 = sym.naiDigits := nai_div _
  have hmod : sym.toNai % 10 = dammChecksum8digit sym.naiDigits := by
    rw [toNai_eq_naiDigits]
    omega
  have hlength : sym.toNaiString.length = 11 := by
    rw [toNaiString, length_cons, length_cons, length_decimal]
  have hrest : sym.toNaiString.drop 2 = decimal 8 sym.toNai := rfl
  have hstart : sym.toNaiString.take 2 = ['@', '@'] := rfl
  have hread : fromNaiString sym.toNaiString decimalPlaces =
      (assetNumFromNai sym.toNai decimalPlaces >>= fun assetNum => pure ⟨assetNum⟩) := by
    rw [fromNaiString, hlength, hstart, hrest, lexicalCastUint32_decimal hnai]
    simp only [fcAssert, decide_true, ensure_true, ok_bind]
  have hrange : decide (1 ≤ sym.naiDigits ∧ sym.naiDigits ≤ 99999999) = true := decide_eq_true ⟨hlow, hhigh⟩
  rw [hread, assetNumFromNai, hdiv, hmod, hrange, decide_eq_true rfl]
  simp only [fcAssert, ensure_true, ok_bind]
  split_ifs
  · exact bind_assoc _ _ _
  · exact bind_assoc _ _ _

theorem fromNaiString_toNaiString_iff :
    fromNaiString sym.toNaiString sym.decimals = .ok sym ↔ sym.assetNum / 32 ≠ 2 := by
  rw [fromNaiString_eq h]
  rcases validate_ok_iff.1 h with rfl | ⟨hlow, hhigh, hbit, hprecision⟩
  · decide
  · have hne : sym ≠ xgtSymbol := ne_xgt hbit
    have hdigits : sym.naiDigits = sym.assetNum / 32 := if_neg hne
    rw [hdigits]
    split_ifs with htwo
    · refine iff_of_false (fun hread => ?_) (not_not_intro htwo)
      obtain ⟨_, -, hread⟩ := of_bind hread
      exact hne (Except.ok.inj hread).symm
    · refine iff_of_true (bind_ok (fcAssert_ok hprecision) ?_) htwo
      have hnum : sym.assetNum / 32 * 32 + 16 + sym.decimals = sym.assetNum := by
        unfold decimals
        omega
      rw [hnum]
      rfl

theorem fromVariant_toVariant :
    fromVariant sym.toVariant = fromNaiString sym.toNaiString sym.decimals := by
  have hdecimals : sym.decimals ≤ 12 := by
    rcases validate_ok_iff.1 h with rfl | ⟨-, -, -, hprecision⟩
    · decide
    · exact hprecision
  simp [fromVariant, toVariant, precisionOf, lookup_cons, hdecimals, fcAssert, ok_bind]

end

/-! ## Bytes -/

inductive Space where
  | legacySpace
  | xttNaiSpace
  deriving DecidableEq

def space (sym : AssetSymbol) : Space := if sym = xgtSymbol then .legacySpace else .xttNaiSpace

def xgtSymbolSer : Nat := 0x54475803

def pack (sym : AssetSymbol) : Bytes :=
  match sym.space with
  | .legacySpace => leBytes 8 xgtSymbolSer
  | .xttNaiSpace => leBytes 4 sym.assetNum

def readBytes (k : Nat) (bs : Bytes) : Result (Bytes × Bytes) := do
  ensure (k ≤ bs.length) ⟨.other, "attempt to read past the end of the stream"⟩
  pure (bs.take k, bs.drop k)

def unpack (bs : Bytes) : Result (AssetSymbol × Bytes) := do
  let (low, bs) ← readBytes 4 bs
  if leNat low = xgtSymbolSer % 2 ^ 32 then
    let (high, bs) ← readBytes 4 bs
    fcAssert (leNat (low ++ high) = xgtSymbolSer) "invalid asset bits"
    xgtSymbol.validate
    pure (xgtSymbol, bs)
  else
    let sym : AssetSymbol := ⟨leNat low⟩
    sym.validate
    pure (sym, bs)

theorem readBytes_leBytes (k n : Nat) (rest : Bytes) :
    readBytes k (leBytes k n ++ rest) = .ok (leBytes k n, rest) := by
  have hle : decide (k ≤ (leBytes k n ++ rest).length) = true := by
    rw [length_append, length_leBytes]
    exact decide_eq_true (Nat.le_add_right _ _)
  rw [readBytes, hle, take_left' (length_leBytes k n), drop_left' (length_leBytes k n)]
  rfl

theorem unpack_leBytes {n : Nat} (hn : n < 2 ^ 32) (hser : n ≠ xgtSymbolSer) (rest : Bytes) :
    unpack (leBytes 4 n ++ rest) = ((⟨n⟩ : AssetSymbol).validate >>= fun _ => pure (⟨n⟩, rest)) := by
  have hnat : leNat (leBytes 4 n) = n := (leNat_leBytes 4 n).trans (Nat.mod_eq_of_lt hn)
  have hlow : ¬leNat (leBytes 4 n) = xgtSymbolSer % 2 ^ 32 := by
    rw [hnat]
    exact hser
  rw [unpack, readBytes_leBytes, ok_bind]
  dsimp only
  rw [if_neg hlow, hnat]

theorem unpack_long {bs bs' low high rest : Bytes} (hlow : readBytes 4 bs = .ok (low, bs'))
    (hhigh : readBytes 4 bs' = .ok (high, rest)) (hstart : leNat low = xgtSymbolSer % 2 ^ 32)
    (hser : leNat (low ++ high) = xgtSymbolSer) : unpack bs = .ok (xgtSymbol, rest) := by
  have hassert (msg : String) : fcAssert (leNat (low ++ high) = xgtSymbolSer) msg = .ok () :=
    fcAssert_ok hser
  have hvalid : xgtSymbol.validate = .ok () := validate_ok_iff.2 (.inl rfl)
  refine bind_ok hlow ?_
  dsimp only
  rw [if_pos hstart]
  exact bind_ok hhigh (bind_ok (hassert _) (bind_ok hvalid rfl))

theorem unpack_pack (h : sym.validate = .ok ()) (rest : Bytes) :
    unpack (sym.pack ++ rest) = .ok (sym, rest) := by
  rcases validate_ok_iff.1 h with rfl | ⟨-, hhigh, hbit, -⟩
  · have hpack : xgtSymbol.pack = leBytes 4 xgtSymbolSer ++ leBytes 4 0 := by decide
    rw [hpack, append_assoc]
    exact unpack_long (readBytes_leBytes _ _ _) (readBytes_leBytes _ _ _) (by decide) (by decide)
  · have hpack : sym.pack = leBytes 4 sym.assetNum := by
      rw [pack, space, if_neg (ne_xgt hbit)]
    have hser : sym.assetNum ≠ xgtSymbolSer := fun heq => by
      rw [heq] at hbit
      exact absurd hbit (by decide)
    rw [hpack, unpack_leBytes (by omega) hser]
    change (sym.validate >>= fun _ => pure (sym, rest)) = _
    rw [h]
    rfl

theorem unpack_pack_invalid (hnum : sym.assetNum < 2 ^ 32) (h : sym.validate ≠ .ok ()) :
    ∃ e, unpack sym.pack = .error e := by
  have hne : sym ≠ xgtSymbol := fun heq => h (validate_ok_iff.2 (.inl heq))
  have hpack : sym.pack = leBytes 4 sym.assetNum ++ [] := by
    rw [pack, space, if_neg hne, append_nil]
  rw [hpack]
  by_cases hser : sym.assetNum = xgtSymbolSer
  · rw [hser]
    exact ⟨_, rfl⟩
  · rw [unpack_leBytes hnum hser]
    change ∃ e, (sym.validate >>= fun _ => _) = .error e
    cases hvalid : sym.validate with
    | ok u => exact absurd hvalid h
    | error e => exact ⟨e, rfl⟩

theorem symbol_round_trips_iff (a b : AssetSymbol) :
    (a.validate = .ok () → ∀ rest, unpack (a.pack ++ rest) = .ok (a, rest)) ∧
    (a.assetNum < 2 ^ 32 → a.validate ≠ .ok () → ∃ e, unpack a.pack = .error e) ∧
    (a.validate = .ok () → fromVariant a.toVariant = fromNaiString a.toNaiString a.decimals) ∧
    (a.validate = .ok () → b.validate = .ok () →
      (fromNaiString a.toNaiString a.decimals = .ok a ∧ fromNaiString b.toNaiString b.decimals = .ok b ∧
        (a ≠ b → (a.toNaiString, a.decimals) ≠ (b.toNaiString, b.decimals)) ↔
      a.assetNum / 32 ≠ 2 ∧ b.assetNum / 32 ≠ 2)) := by
  refine ⟨fun h => unpack_pack h, unpack_pack_invalid, fromVariant_toVariant, fun ha hb => ?_⟩
  rw [← fromNaiString_toNaiString_iff ha, ← fromNaiString_toNaiString_iff hb]
  refine ⟨fun h => ⟨h.1, h.2.1⟩, fun h => ⟨h.1, h.2, fun hne heq => hne ?_⟩⟩
  obtain ⟨htext, hprecision⟩ := Prod.mk.inj heq
  have hsame := h.1
  rw [htext, hprecision, h.2] at hsame
  exact (Except.ok.inj hsame).symm

theorem symbol_taken_for_xgt :
    (⟨2 * 32 + 16 + 8⟩ : AssetSymbol).validate = .ok () ∧
      toNaiString ⟨2 * 32 + 16 + 8⟩ = xgtSymbol.toNaiString ∧
      (⟨2 * 32 + 16 + 8⟩ : AssetSymbol).decimals = xgtSymbol.decimals ∧
      fromNaiString (toNaiString ⟨2 * 32 + 16 + 8⟩) 8 = .ok xgtSymbol ∧
      (⟨2 * 32 + 16 + 7⟩ : AssetSymbol).validate = .ok () ∧
      fromNaiString (toNaiString ⟨2 * 32 + 16 + 7⟩) 7 =
        .error ⟨.assertException, "decimal_places == XGT_PRECISION_XGT"⟩ :=
  ⟨by decide, by decide, by decide, by decide, by decide, by decide⟩

end AssetSymbol

end Xgt
