import JavaGraft.Symbol.Basic
import Mathlib.Data.Nat.ModEq
import Mathlib.Data.Nat.Prime.Basic

/-!
# Members of one name are told apart

The identity of a member is a word that takes one parameter after the other. Each step is a
bijection of words, in what it starts from as well as in what it takes: it is made of a rotation,
exclusive disjunctions, and a product with the factor of the position, which is odd. So a difference
that has come in, with the domain of the member or with one parameter, is never lost again, however
many parameters follow (`JavaGraft.TypeHash.mixParams_injective`).

Two overloads that differ in one parameter have the same identity only if this parameter contributes
the same word to both (`JavaGraft.MethodSymbol.hash_eq_iff`), and methods, constructors and fields
are never taken for each other (`JavaGraft.MethodSymbol.hash_apart`).
-/

namespace JavaGraft

/-! ### Bijections of words -/

namespace XXHash

theorem toBitVec_rotateLeft {k : UInt64} (hpos : 0 < k.toNat) (hlt : k.toNat < 64) (x : UInt64) :
    (rotateLeft x k).toBitVec = x.toBitVec.rotateLeft k.toNat := by
  have hright : (64 - k).toNat = 64 - k.toNat := by
    rw [UInt64.toNat_sub_of_le _ _ (UInt64.le_iff_toNat_le.mpr hlt.le)]
    rfl
  rw [rotateLeft, BitVec.rotateLeft_def, Nat.mod_eq_of_lt hlt]
  refine BitVec.eq_of_toNat_eq ?_
  simp only [UInt64.toBitVec_or, UInt64.toBitVec_shiftLeft, UInt64.toBitVec_shiftRight,
    BitVec.shiftLeft_eq', BitVec.ushiftRight_eq', BitVec.toNat_umod, UInt64.toNat_toBitVec, hright]
  rw [show BitVec.toNat (64 : BitVec 64) = 64 from rfl, Nat.mod_eq_of_lt hlt,
    Nat.mod_eq_of_lt (by omega : 64 - k.toNat < 64)]

/-- **A rotation loses nothing**: the bit at `i` is found again `k` places further up, or at the
bottom where it has left the word at the top. -/
theorem rotateLeft_injective {k : UInt64} (hpos : 0 < k.toNat) (hlt : k.toNat < 64) :
    Function.Injective (rotateLeft · k) := by
  intro x y h
  have hbits : x.toBitVec.rotateLeft k.toNat = y.toBitVec.rotateLeft k.toNat := by
    rw [← toBitVec_rotateLeft hpos hlt, ← toBitVec_rotateLeft hpos hlt]
    exact congrArg UInt64.toBitVec h
  refine UInt64.toBitVec_inj.mp (BitVec.eq_of_getLsbD_eq fun i hi => ?_)
  have hmod : k.toNat % 64 = k.toNat := Nat.mod_eq_of_lt hlt
  by_cases htop : i + k.toNat < 64
  · have hhigh : ¬i + k.toNat < k.toNat := by omega
    have hbit := congrArg (BitVec.getLsbD · (i + k.toNat)) hbits
    simpa only [BitVec.getLsbD_rotateLeft, hmod, hhigh, htop, decide_false, decide_true, cond_false,
      Bool.true_and, Nat.add_sub_cancel] using hbit
  · have hlow : i + k.toNat - 64 < k.toNat := by omega
    have hplace : 64 - k.toNat + (i + k.toNat - 64) = i := by omega
    have hbit := congrArg (BitVec.getLsbD · (i + k.toNat - 64)) hbits
    simpa only [BitVec.getLsbD_rotateLeft, hmod, hlow, hplace, decide_true, cond_true] using hbit

/-- **A product with an odd word loses nothing.** -/
theorem mul_injective_of_odd {k : UInt64} (hk : Odd k.toNat) : Function.Injective (· * k) := by
  intro x y h
  have hmod : x.toNat * k.toNat ≡ y.toNat * k.toNat [MOD 2 ^ 64] := by
    have := congrArg UInt64.toNat h
    rwa [UInt64.toNat_mul, UInt64.toNat_mul] at this
  have hcoprime : Nat.gcd (2 ^ 64) k.toNat = 1 := (Nat.coprime_two_left.mpr hk).pow_left 64
  have hword := Nat.ModEq.cancel_right_of_coprime hcoprime hmod
  exact UInt64.toNat_inj.mp (hword.eq_of_lt_of_lt x.toNat_lt y.toNat_lt)

end XXHash

namespace TypeHash

/-! ### Taking parameters -/

/-- The factors of all positions are odd. -/
theorem odd_positionFactor (i : Nat) : Odd (positionFactor i).toNat := by
  have hodd : ∀ k : Fin 8, (positionFactors.getD k 0).toNat % 2 = 1 := by decide
  exact Nat.odd_iff.mpr (hodd ⟨i % 8, Nat.mod_lt i (by decide)⟩)

/-- What a hash was before it took a parameter can be told from what it is after it. -/
theorem mixParam_injective (i : Nat) (p : TypeHash) : Function.Injective (mixParam · i p) := by
  intro x y h
  have hrotated := (UInt64.xor_left_inj _).mp ((UInt64.xor_left_inj _).mp h)
  exact XXHash.rotateLeft_injective (by decide) (by decide) hrotated

/-- The parameter that a hash has taken can be told from what it is after it. -/
theorem mixParam_param_injective (hash : UInt64) (i : Nat) :
    Function.Injective (mixParam hash i) := by
  intro p q h
  have hproduct := (UInt64.xor_right_inj _).mp h
  have hbits := XXHash.mul_injective_of_odd (odd_positionFactor i) hproduct
  cases p
  cases q
  exact congrArg TypeHash.mk hbits

/-- **A difference is never lost again**, whatever parameters follow. -/
theorem mixParams_injective (ps : List TypeHash) (i : Nat) :
    Function.Injective (mixParams · i ps) := by
  induction ps generalizing i with
  | nil => exact Function.injective_id
  | cons p ps ih => exact (ih (i + 1)).comp (mixParam_injective i p)

theorem mixParams_append (hash : UInt64) (i : Nat) (ps qs : List TypeHash) :
    mixParams hash i (ps ++ qs) = mixParams (mixParams hash i ps) (i + ps.length) qs := by
  induction ps generalizing hash i with
  | nil => rfl
  | cons p ps ih =>
    rw [List.cons_append, mixParams, ih, mixParams, List.length_cons, Nat.add_right_comm,
      Nat.add_assoc]

/-! ### Members -/

/-- Members of one domain, owner and name with parameters that differ in one position. -/
theorem ofMember_param_iff (domain : UInt64) (owner : TypeHash) (name : String)
    (front back : List TypeHash) (p q : TypeHash) :
    ofMember domain owner name (front ++ p :: back)
        = ofMember domain owner name (front ++ q :: back)
      ↔ p = q := by
  refine ⟨fun h => ?_, fun h => h ▸ rfl⟩
  have hbits := TypeHash.mk.inj h
  rw [mixParams_append, mixParams_append, mixParams, mixParams] at hbits
  exact mixParam_param_injective _ _ (mixParams_injective back _ hbits)

/-- Members of one owner and name with the same parameters. -/
theorem ofMember_domain_iff (domain domain' : UInt64) (owner : TypeHash) (name : String)
    (params : List TypeHash) :
    ofMember domain owner name params = ofMember domain' owner name params
      ↔ domain = domain' := by
  refine ⟨fun h => ?_, fun h => h ▸ rfl⟩
  have hstart := mixParams_injective params 0 (TypeHash.mk.inj h)
  exact (UInt64.xor_left_inj _).mp ((UInt64.xor_left_inj _).mp hstart)

end TypeHash

namespace MethodSymbol

/-- Types of one base with different numbers of dimensions contribute differently. -/
theorem paramKey_ne_of_dims {t t' : DataType} (hbase : t.base = t'.base) (hdims : t.dims ≠ t'.dims)
    (h : t.dims ≤ DataType.maxDims) (h' : t'.dims ≤ DataType.maxDims) :
    paramKey t ≠ paramKey t' := by
  intro heq
  have hbits := TypeHash.mk.inj heq
  rw [hbase] at hbits
  have hwords := congrArg UInt64.toNat ((UInt64.add_right_inj _).mp hbits)
  have hfits {n : Nat} (hn : n ≤ DataType.maxDims) : n % 2 ^ 64 = n :=
    Nat.mod_eq_of_lt (Nat.lt_of_le_of_lt hn (by decide))
  rw [UInt64.toNat_ofNat', UInt64.toNat_ofNat', hfits h, hfits h'] at hwords
  exact hdims hwords

/-- **Methods of one owner and name** whose parameters differ in one position have the same identity
exactly if the two parameters contribute the same word. -/
theorem hash_eq_iff {m m' : MethodSymbol} (howner : m.owner = m'.owner) (hname : m.name = m'.name)
    {front back : List DataType} {t t' : DataType} (hm : m.signature.params = front ++ t :: back)
    (hm' : m'.signature.params = front ++ t' :: back) :
    m.hash = m'.hash ↔ paramKey t = paramKey t' := by
  rw [hash, hash, hm, hm', howner, hname, List.map_append, List.map_append, List.map_cons,
    List.map_cons]
  exact TypeHash.ofMember_param_iff _ _ _ _ _ _ _

/-- **Members of one owner and name are told apart by their identities.** Two methods whose
parameters, equally many, differ in exactly one position have different identities if identity of
the base and number of dimensions add up to different words there; so an array never passes for its
elements, nor for an array of other dimensions. With the same owner, name and parameters, members of
different domains have different identities: methods and constructors, methods and fields,
constructors and fields. -/
theorem hash_apart :
    (∀ (m m' : MethodSymbol) (front back : List DataType) (t t' : DataType),
      m.owner = m'.owner → m.name = m'.name →
      m.signature.params = front ++ t :: back → m'.signature.params = front ++ t' :: back →
        (t.base.bits + UInt64.ofNat t.dims ≠ t'.base.bits + UInt64.ofNat t'.dims →
          m.hash ≠ m'.hash) ∧
        (t.base = t'.base → t.dims ≠ t'.dims →
          t.dims ≤ DataType.maxDims → t'.dims ≤ DataType.maxDims → m.hash ≠ m'.hash)) ∧
    (∀ (domain domain' : UInt64) (owner : TypeHash) (name : String) (params : List TypeHash),
      TypeHash.ofMember domain owner name params = TypeHash.ofMember domain' owner name params
        ↔ domain = domain') ∧
    (∀ (owner : TypeHash) (params : List TypeHash),
      TypeHash.ofMethod owner TypeHash.constructorName params
        ≠ TypeHash.ofConstructor owner params) ∧
    (∀ (owner : TypeHash) (name : String),
      TypeHash.ofMethod owner name [] ≠ TypeHash.ofField owner name) ∧
    ∀ owner : TypeHash,
      TypeHash.ofConstructor owner [] ≠ TypeHash.ofField owner TypeHash.constructorName := by
  refine ⟨fun m m' front back t t' howner hname hm hm' => ?_, TypeHash.ofMember_domain_iff,
    fun owner params => ?_, fun owner name => ?_, fun owner => ?_⟩
  · have hiff := hash_eq_iff howner hname hm hm'
    refine ⟨fun hwords heq => hwords (TypeHash.mk.inj (hiff.mp heq)), ?_⟩
    intro hbase hdims h h' heq
    exact paramKey_ne_of_dims hbase hdims h h' (hiff.mp heq)
  · exact (TypeHash.ofMember_domain_iff _ _ _ _ _).not.mpr (by decide)
  · exact (TypeHash.ofMember_domain_iff _ _ _ _ _).not.mpr (by decide)
  · exact (TypeHash.ofMember_domain_iff _ _ _ _ _).not.mpr (by decide)

/-- A method `tag` of ten parameters, the ninth of which is given: a position where the factors have
begun to repeat. -/
def sampleOverload (ninth result : DataType) : MethodSymbol where
  name := "tag"
  owner := .ofName "ext.Ext"
  flags := .none
  typeParams := none
  signature := ⟨List.replicate 8 (.simple .int) ++ [ninth, .simple .long], result, false⟩

/-- A text and an array of texts as the ninth parameter are told apart, by the words that they
contribute, and as types of one base. -/
theorem hash_apart_ninth :
    TypeHash.string.bits + UInt64.ofNat 0 ≠ TypeHash.string.bits + UInt64.ofNat 1 ∧
      (sampleOverload (.simple .string) .void).hash
        ≠ (sampleOverload ⟨.string, 1⟩ (.simple .int)).hash ∧
      (sampleOverload ⟨.string, 255⟩ .void).hash ≠ (sampleOverload ⟨.string, 1⟩ .void).hash := by
  have hwords : TypeHash.string.bits + UInt64.ofNat 0 ≠ TypeHash.string.bits + UInt64.ofNat 1 :=
    (UInt64.add_right_inj _).not.mpr (by decide)
  have happart (t t' result result' : DataType) :=
    hash_apart.1 (sampleOverload t result) (sampleOverload t' result')
      (List.replicate 8 (.simple .int)) [.simple .long] t t' rfl rfl rfl rfl
  exact ⟨hwords, (happart _ _ _ _).1 hwords,
    (happart _ _ _ _).2 rfl (by decide) (by decide) (by decide)⟩

end MethodSymbol

end JavaGraft
