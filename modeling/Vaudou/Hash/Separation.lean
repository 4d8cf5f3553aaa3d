/-
**What the hash functions keep apart.**

`vd_hash` and `vd_meta__hash` mix a key into 64 bits, four bytes at a time. Every step can be undone from
the one behind it (Foundation/Mixing), so whatever differs at one place only stays different:

* **`hash_separates`** — keys of one length that differ in one aligned word of four bytes, or only in the
  bytes behind the last one, never share a hash.
* **`hash_collisions`** — of the keys of eight bytes (the keys of an integer map and the type ids) at most
  three share a hash.
-/

import Mathlib.Tactic.NormNum
import Vaudou.Foundation.Hash
import Vaudou.Foundation.Mixing
import Vaudou.Meta.Registry

namespace Vaudou

open Vaudou.Memory Vaudou.Mixing

/-- `vd_hash`; the seed is a `u32`. -/
def seededHash (key : List UInt8) (seed : Nat) : Nat := hashFrom key (seed ^^^ key.length)

/-- The mixing of one word of four bytes. -/
def mixWord (k : Nat) : Nat :=
  let k := k * hashMul % 2 ^ 32
  let k := k ^^^ (k >>> 24)
  k * hashMul % 2 ^ 32

/-- The bytes behind the last word, put together. -/
def tailValue (tail : List UInt8) : Nat :=
  tail.foldr (fun byte high => (high <<< 8) ^^^ byte.toNat) 0

/-! ### Words -/

section Words

variable {k k' h h' : Nat} {key rest : List UInt8} {a b c d a' b' c' d' : UInt8}

theorem hashMul_odd : hashMul % 2 = 1 := rfl

theorem mixWord_lt : mixWord k < 2 ^ 32 := Nat.mod_lt _ (by norm_num)

/-- **A word is determined** by what it is mixed to. -/
theorem mixWord_injective (below : k < 2 ^ 32) (below' : k' < 2 ^ 32)
    (same : mixWord k = mixWord k') : k = k' := by
  have first : ∀ n, n * hashMul % 2 ^ 32 < 2 ^ 32 := fun n => Nat.mod_lt _ (by norm_num)
  have shifted : ∀ n, (n * hashMul % 2 ^ 32) ^^^ ((n * hashMul % 2 ^ 32) >>> 24) < 2 ^ 32 := fun n =>
    Nat.xor_lt_two_pow (first n) ((Nat.shiftRight_le _ _).trans_lt (first n))
  have middle := mul_mod_injective hashMul_odd (shifted k) (shifted k') same
  exact mul_mod_injective hashMul_odd below below' (xorShift_injective (by norm_num) middle)

/-- Four bytes are determined by the word. -/
theorem word_injective (same : leValue [a, b, c, d] = leValue [a', b', c', d']) :
    [a, b, c, d] = [a', b', c', d'] := by
  have bytes := congrArg (leBytes 4) same
  exact (leBytes_leValue [a, b, c, d]).symm.trans (bytes.trans (leBytes_leValue [a', b', c', d']))

theorem word_lt : leValue [a, b, c, d] < 2 ^ 32 := by
  have bound : leValue [a, b, c, d] < 256 ^ 4 := leValue_lt [a, b, c, d]
  exact bound.trans_eq (by norm_num)

/-- The loop takes a word. -/
theorem hashLoop_word : hashLoop (a :: b :: c :: d :: rest) h =
    hashLoop rest ((h * hashMul % 2 ^ 64) ^^^ mixWord (leValue [a, b, c, d])) := by
  rw [hashLoop.eq_def]
  rfl

/-- The word stays within 64 bits. -/
theorem step_lt : (h * hashMul % 2 ^ 64) ^^^ mixWord k < 2 ^ 64 :=
  Nat.xor_lt_two_pow (Nat.mod_lt _ (by norm_num)) (mixWord_lt.trans (by norm_num))

/-- The loop ends with the bytes behind the last word. -/
theorem hashLoop_tail {tail : List UInt8} (some : tail ≠ []) (short : tail.length < 4) :
    hashLoop tail h = (h ^^^ tailValue tail) * hashMul % 2 ^ 64 := by
  rw [hashLoop.eq_def]
  match tail, some, short with
  | [a], _, _ => simp [tailValue]
  | [a, b], _, _ => simp [tailValue, Nat.xor_assoc]
  | [a, b, c], _, _ =>
    simp [tailValue, Nat.xor_assoc, Nat.shiftLeft_xor_distrib, ← Nat.shiftLeft_add]
  | _ :: _ :: _ :: _ :: _, _, short => exact absurd short (by simp)

theorem hashLoop_nil : hashLoop [] h = h := by
  rw [hashLoop.eq_def]

theorem tailValue_lt : ∀ tail : List UInt8, tailValue tail < 2 ^ (8 * tail.length)
  | [] => Nat.one_pos
  | byte :: rest => by
    have later := tailValue_lt rest
    have width : 8 * (byte :: rest).length = 8 * rest.length + 8 := by
      rw [List.length_cons, Nat.mul_add]
    rw [width]
    refine Nat.xor_lt_two_pow ?_ (byte.toNat_lt.trans_le (Nat.pow_le_pow_right Nat.two_pos (by omega)))
    rw [Nat.shiftLeft_eq, Nat.pow_add]
    exact Nat.mul_lt_mul_of_pos_right later (by norm_num)

theorem tailValue_lt_word {tail : List UInt8} (short : tail.length < 4) : tailValue tail < 2 ^ 64 :=
  (tailValue_lt tail).trans_le (Nat.pow_le_pow_right Nat.two_pos (by omega))

/-- **The bytes behind the last word are determined** by what they are put together to. -/
theorem tailValue_injective : ∀ {tail tail' : List UInt8}, tail.length = tail'.length →
    tailValue tail = tailValue tail' → tail = tail'
  | [], [], _, _ => rfl
  | byte :: rest, byte' :: rest', long, same => by
    obtain ⟨later, here⟩ := shiftXor_injective byte.toNat_lt byte'.toNat_lt same
    rw [UInt8.toNat_inj.mp here, tailValue_injective (Nat.succ.inj long) later]

/-- **A key is a word and a rest**, or fewer than four bytes. -/
theorem key_cases (key : List UInt8) :
    key = [] ∨ (key ≠ [] ∧ key.length < 4) ∨ ∃ a b c d rest, key = a :: b :: c :: d :: rest := by
  match key with
  | [] => exact Or.inl rfl
  | [_] | [_, _] | [_, _, _] => exact Or.inr (Or.inl ⟨List.cons_ne_nil _ _, by simp⟩)
  | a :: b :: c :: d :: rest => exact Or.inr (Or.inr ⟨a, b, c, d, rest, rfl⟩)

/-- The word stays within 64 bits. -/
theorem hashLoop_lt (key : List UInt8) {h : Nat} (below : h < 2 ^ 64) : hashLoop key h < 2 ^ 64 := by
  rcases key_cases key with rfl | ⟨some, short⟩ | ⟨a, b, c, d, rest, rfl⟩
  · rwa [hashLoop_nil]
  · rw [hashLoop_tail some short]
    exact Nat.mod_lt _ (by norm_num)
  · rw [hashLoop_word]
    exact hashLoop_lt rest step_lt
termination_by key.length

/-- Behind the loop on the bytes that are left, the word it started with is determined. -/
theorem hashLoop_tail_injective {tail : List UInt8} (some : tail ≠ []) (short : tail.length < 4)
    (below : h < 2 ^ 64) (below' : h' < 2 ^ 64) (same : hashLoop tail h = hashLoop tail h') :
    h = h' := by
  rw [hashLoop_tail some short, hashLoop_tail some short] at same
  have small := tailValue_lt_word short
  exact Nat.xor_left_inj.mp (mul_mod_injective hashMul_odd (Nat.xor_lt_two_pow below small)
    (Nat.xor_lt_two_pow below' small) same)

/-- **The loop loses nothing of the word it starts with.** -/
theorem hashLoop_injective (key : List UInt8) {h h' : Nat} (below : h < 2 ^ 64) (below' : h' < 2 ^ 64)
    (same : hashLoop key h = hashLoop key h') : h = h' := by
  rcases key_cases key with rfl | ⟨some, short⟩ | ⟨a, b, c, d, rest, rfl⟩
  · rwa [hashLoop_nil, hashLoop_nil] at same
  · exact hashLoop_tail_injective some short below below' same
  · rw [hashLoop_word, hashLoop_word] at same
    have stepped := Nat.xor_left_inj.mp (hashLoop_injective rest step_lt step_lt same)
    exact mul_mod_injective hashMul_odd below below' stepped
termination_by key.length

/-- The loop over whole words in front of the rest of a key. -/
theorem hashLoop_append (rest : List UInt8) : ∀ (n : Nat) {before : List UInt8} {h : Nat},
    before.length = 4 * n → hashLoop (before ++ rest) h = hashLoop rest (hashLoop before h)
  | 0, before, h, long => by
    rw [List.eq_nil_of_length_eq_zero long, hashLoop_nil, List.nil_append]
  | n + 1, before, h, long => by
    rcases key_cases before with rfl | ⟨_, short⟩ | ⟨a, b, c, d, later, rfl⟩
    · cases long
    · omega
    · have shorter : later.length = 4 * n := by
        simp only [List.length_cons] at long
        omega
      rw [hashLoop_word, List.cons_append, List.cons_append, List.cons_append, List.cons_append,
        hashLoop_word, hashLoop_append rest n shorter]

/-- **The mixing at the end loses nothing.** -/
theorem hashFrom_injective {key' : List UInt8} (below : h < 2 ^ 64) (below' : h' < 2 ^ 64)
    (same : hashFrom key h = hashFrom key' h') : hashLoop key h = hashLoop key' h' := by
  have last := xorShift_injective (by norm_num) same
  have bound : ∀ {n : Nat}, n < 2 ^ 64 → n ^^^ (n >>> 13) < 2 ^ 64 := fun {n} small =>
    Nat.xor_lt_two_pow small ((Nat.shiftRight_le _ _).trans_lt small)
  have mixed := mul_mod_injective hashMul_odd (bound (hashLoop_lt key below))
    (bound (hashLoop_lt key' below')) last
  exact xorShift_injective (by norm_num) mixed

end Words

/-! ### Keys -/

section Keys

variable {before word word' after : List UInt8} {seed : Nat}

/-- `vd_meta__hash` is the same function on keys whose length is a `uint32_t`. -/
theorem metaHash_eq_seededHash {key : List UInt8} (fits : key.length < 2 ^ 32) :
    metaHash key seed = seededHash key seed := by
  rw [metaHash, seededHash, Nat.mod_eq_of_lt fits]

/-- **One part of a key**, a word or the bytes behind the last one, is determined by the word that the
loop ends with. -/
theorem hashLoop_part_injective {h : Nat} (below : h < 2 ^ 64) (long : word.length = word'.length)
    (part : word.length = 4 ∨ word.length < 4 ∧ after = [])
    (same : hashLoop (word ++ after) h = hashLoop (word' ++ after) h) : word = word' := by
  rcases part with four | ⟨short, rfl⟩
  · obtain ⟨a, b, c, d, rfl⟩ := List.length_eq_four.mp four
    obtain ⟨a', b', c', d', rfl⟩ := List.length_eq_four.mp (long.symm.trans four)
    have stepped := hashLoop_injective after step_lt step_lt
      ((hashLoop_word.symm.trans same).trans hashLoop_word)
    exact word_injective (mixWord_injective word_lt word_lt (Nat.xor_right_inj.mp stepped))
  · rw [List.append_nil, List.append_nil] at same
    by_cases empty : word = []
    · rw [empty, List.eq_nil_of_length_eq_zero (long.symm.trans (by rw [empty]; rfl))]
    · have other : word' ≠ [] := fun none => empty (List.eq_nil_of_length_eq_zero (by
        rw [long, none]; rfl))
      rw [hashLoop_tail empty short, hashLoop_tail other (long ▸ short)] at same
      have mixed := mul_mod_injective hashMul_odd
        (Nat.xor_lt_two_pow below (tailValue_lt_word short))
        (Nat.xor_lt_two_pow below (tailValue_lt_word (long ▸ short))) same
      exact tailValue_injective long (Nat.xor_right_inj.mp mixed)

/-- **Keys that differ in one place have different hashes**: in one word of four bytes at a multiple of
four, or in the bytes behind the last word. -/
theorem hash_separates (seed_fits : seed < 2 ^ 32) (key_fits : (before ++ word ++ after).length < 2 ^ 32)
    (aligned : 4 ∣ before.length) (long : word.length = word'.length)
    (part : word.length = 4 ∨ word.length < 4 ∧ after = []) (differ : word ≠ word') :
    seededHash (before ++ word ++ after) seed ≠ seededHash (before ++ word' ++ after) seed ∧
    metaHash (before ++ word ++ after) seed ≠ metaHash (before ++ word' ++ after) seed := by
  have lengths : (before ++ word' ++ after).length = (before ++ word ++ after).length := by
    simp only [List.length_append, long]
  rw [metaHash_eq_seededHash key_fits, metaHash_eq_seededHash (lengths.trans_lt key_fits), and_self]
  intro same
  obtain ⟨n, words⟩ := aligned
  have start : seed ^^^ (before ++ word ++ after).length < 2 ^ 64 :=
    (Nat.xor_lt_two_pow seed_fits key_fits).trans (by norm_num)
  unfold seededHash at same
  rw [lengths] at same
  have looped := hashFrom_injective start start same
  generalize seed ^^^ (before ++ word ++ after).length = h at start looped
  rw [List.append_assoc, List.append_assoc, hashLoop_append _ n words, hashLoop_append _ n words]
    at looped
  exact differ (hashLoop_part_injective (hashLoop_lt before start) long part looped)

/-- Keys that differ in one byte have different hashes. -/
theorem hash_separates_byte :
    seededHash ([1, 2, 3, 4] ++ [5, 6, 7, 8] ++ [9]) 0 ≠ seededHash ([1, 2, 3, 4] ++ [5, 0, 7, 8] ++ [9]) 0 :=
  (@hash_separates [1, 2, 3, 4] [5, 6, 7, 8] [5, 0, 7, 8] [9] 0
    (by norm_num) (by norm_num) (by norm_num) rfl (Or.inl rfl) (by decide)).1

/-! ### Keys of eight bytes -/

/-- The word behind the first four bytes. -/
def firstWord (h : Nat) (key : List UInt8) : Nat := hashLoop (key.take 4) h

section Eight

variable {key key' : List UInt8} {h : Nat}

/-- A word, alone. -/
theorem hashLoop_four (four : word.length = 4) :
    hashLoop word h = (h * hashMul % 2 ^ 64) ^^^ mixWord (leValue word) := by
  obtain ⟨a, b, c, d, rfl⟩ := List.length_eq_four.mp four
  rw [hashLoop_word, hashLoop_nil]

/-- **The loop on eight bytes**: the first word, and the second one mixed to it. -/
theorem hashLoop_eight (eight : key.length = 8) : hashLoop key h =
    (firstWord h key * hashMul % 2 ^ 64) ^^^ mixWord (leValue (key.drop 4)) := by
  have first : (key.take 4).length = 4 * 1 := by rw [List.length_take, eight]; rfl
  have second : (key.drop 4).length = 4 := by rw [List.length_drop, eight]
  conv_lhs => rw [← List.take_append_drop 4 key]
  rw [hashLoop_append _ 1 first, hashLoop_four second, firstWord]

/-- **The first word determines the key** of a hash. -/
theorem firstWord_injective (below : h < 2 ^ 64) (eight : key.length = 8) (eight' : key'.length = 8)
    (same : hashLoop key h = hashLoop key' h) (first : firstWord h key = firstWord h key') :
    key = key' := by
  have front : key.take 4 = key'.take 4 := by
    refine @hashLoop_part_injective _ _ [] h below ?_ (Or.inl ?_) ?_
    · rw [List.length_take, List.length_take, eight, eight']
    · rw [List.length_take, eight]
      rfl
    · rwa [List.append_nil, List.append_nil]
  have back : key.drop 4 = key'.drop 4 := by
    rw [hashLoop_eight eight, hashLoop_eight eight', first] at same
    have second := Nat.xor_right_inj.mp same
    have long : (key.drop 4).length = 4 := by rw [List.length_drop, eight]
    have long' : (key'.drop 4).length = 4 := by rw [List.length_drop, eight']
    obtain ⟨a, b, c, d, word⟩ := List.length_eq_four.mp long
    obtain ⟨a', b', c', d', word'⟩ := List.length_eq_four.mp long'
    rw [word, word'] at second ⊢
    exact word_injective (mixWord_injective word_lt word_lt second)
  rw [← List.take_append_drop 4 key, front, back, List.take_append_drop]

/-- **The first words of one hash are close together**: they agree in their upper halves, and so do their
products. -/
theorem firstWord_near (eight : key.length = 8) (eight' : key'.length = 8)
    (same : hashLoop key h = hashLoop key' h) (order : firstWord h key ≤ firstWord h key') :
    firstWord h key' ≤ firstWord h key + 2 := by
  have upper : ∀ {k : List UInt8}, k.length = 8 →
      firstWord h k / 2 ^ 32 = (h * hashMul % 2 ^ 64) / 2 ^ 32 := by
    intro k long
    rw [firstWord, hashLoop_four (by rw [List.length_take, long]; rfl), xor_div_of_lt mixWord_lt]
  have products : ∀ {k : List UInt8}, k.length = 8 →
      firstWord h k * hashMul % 2 ^ 64 / 2 ^ 32 = hashLoop k h / 2 ^ 32 := by
    intro k long
    rw [hashLoop_eight long, xor_div_of_lt mixWord_lt]
  have close : firstWord h key' - firstWord h key < 2 ^ 32 := by
    have split := Nat.div_add_mod (firstWord h key) (2 ^ 32)
    have split' := Nat.div_add_mod (firstWord h key') (2 ^ 32)
    have part := Nat.mod_lt (firstWord h key') (show 0 < 2 ^ 32 by norm_num)
    rw [upper eight] at split
    rw [upper eight'] at split'
    omega
  have room : (firstWord h key' - firstWord h key) * hashMul + 2 ^ 32 ≤ 2 ^ 64 := by
    have scaled := Nat.mul_le_mul_right hashMul (Nat.le_of_lt close)
    refine (Nat.add_le_add_right scaled _).trans ?_
    norm_num [hashMul]
  have near := products_near order room
    ((products eight).trans ((congrArg (fun n => n / 2 ^ 32) same).trans (products eight').symm))
    (by norm_num)
  by_contra apart
  have three : 3 * hashMul ≤ (firstWord h key' - firstWord h key) * hashMul :=
    Nat.mul_le_mul_right _ (by omega)
  have large : 2 ^ 32 ≤ 3 * hashMul := by norm_num [hashMul]
  omega

end Eight

/-- **At most three keys of eight bytes share a hash**: of the distinct keys of an integer map, and of
type ids, with one hash there are no more. -/
theorem hash_collisions {keys : List (List UInt8)} {value : Nat} (seed_fits : seed < 2 ^ 32)
    (distinct : keys.Nodup) (eight : ∀ key ∈ keys, key.length = 8)
    (same : (∀ key ∈ keys, seededHash key seed = value) ∨ ∀ key ∈ keys, metaHash key seed = value) :
    keys.length ≤ 3 := by
  have hashed : ∀ key ∈ keys, seededHash key seed = value := by
    refine same.elim id fun other key member => ?_
    rw [← metaHash_eq_seededHash (by rw [eight key member]; norm_num)]
    exact other key member
  have start : seed ^^^ 8 < 2 ^ 64 :=
    Nat.xor_lt_two_pow (seed_fits.trans (by norm_num)) (by norm_num)
  have looped : ∀ key ∈ keys, ∀ key' ∈ keys,
      hashLoop key (seed ^^^ 8) = hashLoop key' (seed ^^^ 8) := by
    intro key member key' member'
    have equal := (hashed key member).trans (hashed key' member').symm
    rw [seededHash, seededHash, eight key member, eight key' member'] at equal
    exact hashFrom_injective start start equal
  have words : (keys.map (firstWord (seed ^^^ 8))).Nodup :=
    distinct.map_on fun key member key' member' first =>
      firstWord_injective start (eight key member) (eight key' member')
        (looped key member key' member') first
  have few := length_le_of_near (k := 2) words fun x member y member' order => by
    obtain ⟨key, in_keys, rfl⟩ := List.mem_map.mp member
    obtain ⟨key', in_keys', rfl⟩ := List.mem_map.mp member'
    exact firstWord_near (eight key in_keys) (eight key' in_keys') (looped key in_keys key' in_keys')
      order
  rwa [List.length_map] at few

/-- Three keys of an integer map share a hash. -/
theorem hash_collisions_three :
    let keys : List (List UInt8) := [[24, 79, 194, 130, 0, 0, 0, 0],
      [208, 134, 64, 162, 189, 25, 155, 229], [21, 116, 11, 1, 122, 51, 54, 203]]
    (∀ key ∈ keys, seededHash key 0xFACE0FF = 0x42b2c44dcb129280) ∧ keys.length ≤ 3 :=
  ⟨by decide +kernel, @hash_collisions 0xFACE0FF _ 0x42b2c44dcb129280 (by norm_num)
    (by decide) (by decide) (Or.inl (by decide +kernel))⟩

end Keys

end Vaudou
