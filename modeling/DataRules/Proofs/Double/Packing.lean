import DataRules.Proofs.Double.Rounding

set_option autoImplicit false

/-!
# Packing: what survives being stored in 64 bits

Every operation on doubles unpacks its operands and packs its result.  A number
with a significand of 53 bits comes back as it was, or as an infinity when its
exponent is too large; one with fewer bits comes back when it has the smallest exponent.
-/

namespace DataRules.Double

open Float.Model Float.Model.UnpackedFloat

/-- The implicit bit is cleared when a significand is packed, and set again when it
is unpacked. -/
theorem toNat_implicitBit {c : Nat} (hc : c.log2 = 52) :
    (1#1 ++ BitVec.ofNat 52 c).toNat = c := by
  obtain ⟨hlow, hhigh⟩ := log2_eq_52_iff.mp hc
  have hbit : (1#1).toNat <<< 52 = 2 ^ 52 := by decide
  rw [BitVec.toNat_append, ← Nat.shiftLeft_add_eq_or_of_lt (BitVec.ofNat 52 c).isLt, hbit,
    BitVec.toNat_ofNat]
  omega

/-- A biased exponent in the normal range is neither that of the infinities nor that
of the zeros. -/
theorem biased_ne {b : Nat} (hlow : 1 ≤ b) (hhigh : b ≤ 2046) :
    BitVec.ofNat 11 b ≠ -1#11 ∧ BitVec.ofNat 11 b ≠ 0#11 := by
  have htoNat : (BitVec.ofNat 11 b).toNat = b := by
    rw [BitVec.toNat_ofNat]
    omega
  constructor
  · intro h
    have hb := congrArg BitVec.toNat h
    rw [htoNat] at hb
    have hones : (-1#11).toNat = 2047 := by decide
    omega
  · intro h
    have hb := congrArg BitVec.toNat h
    rw [htoNat] at hb
    have hzero : (0#11).toNat = 0 := by decide
    omega

/-- The components of a number with a significand of 53 bits and an exponent in range. -/
theorem pack_normal {c : Nat} {k : Int} (s : Sign) (hpos : 0 < c) (hc : c.log2 = 52)
    (hlow : -1074 ≤ k) (hhigh : k ≤ 971) :
    UnpackedFloat.pack .binary64 (.finite s c k hpos) =
      packComponents .binary64 s (BitVec.ofNat 11 (k + 1075).toNat) (BitVec.ofNat 52 c) := by
  have hbiased : (k + Format.binary64.exponentBias +
      Format.binary64.mantissaBitsWithoutImplicit).toNat = (k + 1075).toNat := by
    show (k + (1023 : Nat) + (52 : Nat)).toNat = _
    omega
  rw [UnpackedFloat.pack]
  simp only [hbiased, hc]
  rw [if_neg, if_pos (by decide)]
  show ¬2 ^ 11 ≤ (k + 1075).toNat + 1
  omega

/-- A number with a significand of 53 bits and an exponent in range is unpacked as it
was packed. -/
theorem unpack_pack_finite {c : Nat} {k : Int} (s : Sign) (hpos : 0 < c) (hc : c.log2 = 52)
    (hlow : -1074 ≤ k) (hhigh : k ≤ 971) :
    (Float.Model.pack (.finite s c k hpos)).unpack = .finite s c k hpos := by
  have hbias : 1 ≤ (k + 1075).toNat ∧ (k + 1075).toNat ≤ 2046 := by omega
  obtain ⟨hones, hzero⟩ := biased_ne hbias.1 hbias.2
  show UnpackedFloat.unpack .binary64 (UnpackedFloat.pack .binary64 (.finite s c k hpos)) = _
  rw [pack_normal s hpos hc hlow hhigh, UnpackedFloat.unpack]
  simp only [unpackMantissa_packComponents, unpackExponent_packComponents,
    unpackSign_packComponents, Sign.ofBitVec_toBitVec, toNat_implicitBit hc]
  rw [if_neg hones, if_neg hzero]
  congr 1
  rw [BitVec.toNat_ofNat]
  show (((k + 1075).toNat % 2 ^ 11 : Nat) : Int) - ((1023 : Nat) + (52 : Nat)) = k
  omega

/-- A number with a significand of 53 bits and an exponent past the range is packed
as an infinity. -/
theorem pack_finite_of_lt {c : Nat} {k : Int} (s : Sign) (hpos : 0 < c) (hlarge : 971 < k) :
    Float.Model.pack (.finite s c k hpos) = Float.Model.pack (.infinity s) := by
  have hpack : UnpackedFloat.pack .binary64 (.finite s c k hpos) =
      UnpackedFloat.pack .binary64 (.infinity s) := by
    rw [UnpackedFloat.pack, UnpackedFloat.pack]
    refine if_pos ?_
    show 2 ^ 11 ≤ (k + (1023 : Nat) + (52 : Nat)).toNat + 1
    omega
  simp only [Float.Model.pack, hpack]

/-- A number with less than 53 bits and the smallest exponent is unpacked as it was
packed. -/
theorem unpack_pack_subnormal {c : Nat} (s : Sign) (hpos : 0 < c) (hc : c.log2 < 52) :
    (Float.Model.pack (.finite s c (-1074) hpos)).unpack = .finite s c (-1074) hpos := by
  have hlt : c < 2 ^ 52 := (Nat.log2_lt (Nat.ne_of_gt hpos)).mp hc
  have htoNat : (BitVec.ofNat 52 c).toNat = c := by
    rw [BitVec.toNat_ofNat, Nat.mod_eq_of_lt hlt]
  have hne : BitVec.ofNat 52 c ≠ 0#52 := by
    intro h
    rw [h] at htoNat
    exact absurd htoNat (Nat.ne_of_lt hpos)
  have hpack : UnpackedFloat.pack .binary64 (.finite s c (-1074) hpos) =
      packComponents .binary64 s 0#11 (BitVec.ofNat 52 c) := by
    rw [UnpackedFloat.pack, if_neg (by decide), if_neg]
    show ¬c.log2 + 1 = 53
    omega
  show UnpackedFloat.unpack .binary64 (UnpackedFloat.pack .binary64 (.finite s c (-1074) hpos)) = _
  rw [hpack, UnpackedFloat.unpack]
  simp only [unpackMantissa_packComponents, unpackExponent_packComponents,
    unpackSign_packComponents, Sign.ofBitVec_toBitVec, htoNat]
  rw [if_neg (by decide), if_pos trivial, dif_neg hne]
  rfl

/-- The unpacked numbers of which packing loses nothing. -/
inductive Stored : UnpackedFloat → Prop where
  | notANumber : Stored .notANumber
  | infinity (s : Sign) : Stored (.infinity s)
  | zero (s : Sign) : Stored (.zero s)
  | finite {c : Nat} {k : Int} (s : Sign) (hpos : 0 < c) (hc : c.log2 = 52) (hlow : -1074 ≤ k)
      (hhigh : k ≤ 971) : Stored (.finite s c k hpos)
  | subnormal {c : Nat} (s : Sign) (hpos : 0 < c) (hc : c.log2 < 52) :
      Stored (.finite s c (-1074) hpos)

namespace Stored

theorem unpack_pack {u : UnpackedFloat} (h : Stored u) : (Float.Model.pack u).unpack = u := by
  cases h with
  | notANumber => rfl
  | infinity s => cases s <;> rfl
  | zero s => cases s <;> rfl
  | finite s hpos hc hlow hhigh => exact unpack_pack_finite s hpos hc hlow hhigh
  | subnormal s hpos hc => exact unpack_pack_subnormal s hpos hc

theorem neg {u : UnpackedFloat} (h : Stored u) : Stored u.neg := by
  cases h with
  | notANumber => exact .notANumber
  | infinity s => exact .infinity (-s)
  | zero s => exact .zero (-s)
  | finite s hpos hc hlow hhigh => exact .finite (-s) hpos hc hlow hhigh
  | subnormal s hpos hc => exact .subnormal (-s) hpos hc

/-- A natural number below `2 ^ 53` is packed without loss. -/
theorem unpackedNat {n : Nat} (hsmall : n < 2 ^ 53) : Stored (unpackedNat n) := by
  rcases Nat.eq_zero_or_pos n with rfl | hn
  · exact .zero .positive
  · have hlog := log2_lt_of_lt hn hsmall
    rw [unpackedNat_of_pos hn]
    exact .finite .positive _ (log2_significand hn hsmall) (by omega) (by omega)

end Stored

/-! ## Nothing else is packed the same -/

/-- What 64 bits stand for, by their exponent and their mantissa. -/
inductive Encodes (b : BitVec Format.binary64.numBits) : UnpackedFloat → Prop where
  | infinity (hexponent : unpackExponent b = -1#11) (hmantissa : unpackMantissa b = 0#52) :
      Encodes b (.infinity (Sign.ofBitVec (unpackSign b)))
  | notANumber (hexponent : unpackExponent b = -1#11) (hmantissa : unpackMantissa b ≠ 0#52) :
      Encodes b .notANumber
  | zero (hexponent : unpackExponent b = 0#11) (hmantissa : unpackMantissa b = 0#52) :
      Encodes b (.zero (Sign.ofBitVec (unpackSign b)))
  | subnormal (hexponent : unpackExponent b = 0#11) (hpos : 0 < (unpackMantissa b).toNat) :
      Encodes b (.finite (Sign.ofBitVec (unpackSign b)) (unpackMantissa b).toNat (-1074) hpos)
  | normal (hones : unpackExponent b ≠ -1#11) (hzero : unpackExponent b ≠ 0#11)
      (hpos : 0 < 2 ^ 52 + (unpackMantissa b).toNat) :
      Encodes b (.finite (Sign.ofBitVec (unpackSign b)) (2 ^ 52 + (unpackMantissa b).toNat)
        ((unpackExponent b).toNat - 1075) hpos)

theorem encodes_unpack (b : BitVec Format.binary64.numBits) :
    Encodes b (UnpackedFloat.unpack .binary64 b) := by
  have hbias : ((Format.binary64.exponentBias : Nat) : Int) = 1023 := rfl
  rw [UnpackedFloat.unpack]
  split
  · next hexponent =>
      split
      · next hmantissa => exact .infinity hexponent hmantissa
      · next hmantissa => exact .notANumber hexponent hmantissa
  · next hones =>
      split
      · next hexponent =>
          split
          · next hmantissa => exact .zero hexponent hmantissa
          · next hmantissa =>
              have hpos : 0 < (unpackMantissa b).toNat := by
                rw [Nat.pos_iff_ne_zero]
                exact fun h => hmantissa (BitVec.eq_of_toNat_eq h)
              have hmin : (((unpackExponent b).toNat : Int) - ((Format.binary64.exponentBias : Nat) +
                  (Format.binary64.mantissaBitsWithoutImplicit : Nat))) + 1 = -1074 := by
                rw [hexponent]
                rfl
              simp only [hmin]
              exact .subnormal hexponent hpos
      · next hzero =>
          have hbits : (1#1 ++ unpackMantissa b).toNat = 2 ^ 52 + (unpackMantissa b).toNat := by
            rw [BitVec.toNat_append, ← Nat.shiftLeft_add_eq_or_of_lt (unpackMantissa b).isLt]
            rfl
          simp only [hbits]
          exact .normal hones hzero _

theorem log2_normal (v : BitVec 52) : (2 ^ 52 + v.toNat).log2 = 52 := by
  have hlt : v.toNat < 2 ^ 52 := v.isLt
  exact log2_eq_52_iff.mpr ⟨by omega, by omega⟩

theorem log2_subnormal {v : BitVec 52} (hpos : 0 < v.toNat) : v.toNat.log2 < 52 :=
  (Nat.log2_lt (Nat.ne_of_gt hpos)).mpr v.isLt

/-- What a double is unpacked to is packed without loss. -/
theorem stored_unpack (x : Float.Model) : Stored x.unpack := by
  have hencodes := encodes_unpack x.toBits.toBitVec
  rw [Float.Model.unpack]
  generalize UnpackedFloat.unpack .binary64 x.toBits.toBitVec = u at hencodes ⊢
  cases hencodes with
  | infinity => exact .infinity _
  | notANumber => exact .notANumber
  | zero => exact .zero _
  | subnormal hexponent hpos => exact .subnormal _ hpos (log2_subnormal hpos)
  | normal hones hzero hpos =>
      generalize @unpackExponent .binary64 x.toBits.toBitVec = v at hones hzero hpos ⊢
      have hlt : v.toNat < 2048 := v.isLt
      have hmax : v.toNat ≠ 2047 := fun h => hones (BitVec.eq_of_toNat_eq (h.trans (by decide)))
      have hmin : v.toNat ≠ 0 := fun h => hzero (BitVec.eq_of_toNat_eq (h.trans (by decide)))
      exact .finite _ hpos (log2_normal _) (by omega) (by omega)

/-- A finite number is unpacked with a significand of 53 bits, or with the smallest
exponent and fewer bits. -/
theorem unpack_finite {x : Float.Model} {s : Sign} {m : Nat} {e : Int} {hpos : 0 < m}
    (h : x.unpack = .finite s m e hpos) : m.log2 = 52 ∨ e = -1074 ∧ m.log2 < 52 := by
  have hencodes : Encodes x.toBits.toBitVec (.finite s m e hpos) := h ▸ encodes_unpack _
  cases hencodes with
  | subnormal hexponent => exact .inr ⟨rfl, log2_subnormal hpos⟩
  | normal => exact .inl (log2_normal _)

/-- A double is packed as it was unpacked. -/
theorem pack_unpack (x : Float.Model) : .pack x.unpack = x := by
  have hbits : UnpackedFloat.pack .binary64 x.unpack = x.toBits.toBitVec :=
    pack_unpack_of_valid x.valid
  obtain ⟨bits, hvalid⟩ := x
  simp only [Float.Model.pack, hbits]

end DataRules.Double
