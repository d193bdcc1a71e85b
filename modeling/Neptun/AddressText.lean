/-
The text of an address, and the order of addresses.

`std::map` keeps the peers in the order of `operator<`, while texts are compared
elsewhere; both tell the same addresses apart.  A string is the list of its
characters.

* `ipStringToHost_ipHostToString` — the text of an ip is read back;
* `IpAddress.toString_inj` — different addresses have different texts;
* `address_text_and_order` — these, and the order.
-/
import Neptun.Endpoint
import Mathlib.Data.List.TakeWhile

namespace Neptun

/-- The exceptions of `std::stoi`. -/
inductive StoiError
  | invalidArgument
  | outOfRange
  deriving DecidableEq, Repr

/-- `isspace`. -/
def isSpace (c : Char) : Bool := c == ' ' || (9 ≤ c.toNat && c.toNat ≤ 13)

/-- `std::stoi`: white space, a sign, and digits up to the first character that is none. -/
def stoi (s : List Char) : Except StoiError ℤ :=
  let s := s.dropWhile isSpace
  let isNegative := s.head? = some '-'
  let s := if s.head? = some '-' ∨ s.head? = some '+' then s.tail else s
  let digits := s.takeWhile Char.isDigit
  if digits = [] then
    .error .invalidArgument
  else
    let number : ℤ := Nat.ofDigitChars 10 digits 0
    let value := if isNegative then -number else number
    if -2 ^ 31 ≤ value ∧ value < 2 ^ 31 then .ok value else .error .outOfRange

/-- The next value of `ip` in `ip_string_to_host`. -/
def appendByte (ip byte : UInt32) : UInt32 :=
  ((0xffffff00 : UInt32) &&& (ip <<< 8)) ||| ((0x000000ff : UInt32) &&& byte)

/-- The loop of `ip_string_to_host`, and what it does behind the last delimiter. -/
def ipStringToHostLoop (ip : UInt32) (s : List Char) : Except StoiError UInt32 :=
  match h : s.findIdx? (· == '.') with
  | some pos => do
    let token := s.take pos
    let byte ← stoi token
    ipStringToHostLoop (appendByte ip (UInt32.ofInt byte)) (s.drop (pos + 1))
  | none => do
    let byte ← stoi s
    pure (appendByte ip (UInt32.ofInt byte))
termination_by s.length
decreasing_by
  obtain ⟨hlt, -⟩ := List.findIdx?_eq_some_iff_getElem.mp h
  rw [List.length_drop]
  omega

def ipStringToHost (s : List Char) : Except StoiError UInt32 := ipStringToHostLoop 0 s

/-- `std::to_string`. -/
def toText (n : ℕ) : List Char := Nat.toDigits 10 n

/-- `next_token` of `ip_host_to_string`, on the text so far, the separator and the ip. -/
def nextToken : List Char × List Char × UInt32 → List Char × List Char × UInt32
  | (s, sep, ip) =>
    let byte := (ip &&& 0xff000000) >>> 24
    (s ++ (sep ++ toText byte.toNat), ['.'], ip <<< 8)

def ipHostToString (ip : UInt32) : List Char := (nextToken^[4] ([], [], ip)).1

namespace IpAddress

def toString (x : IpAddress) : List Char := ipHostToString x.ip ++ [':'] ++ toText x.port.toNat

/-- `operator==`. -/
def eq (x y : IpAddress) : Bool := !x.lt y && !y.lt x

end IpAddress

/-! ### Numbers -/

theorem isDigit_of_mem_toText {n : ℕ} {c : Char} (h : c ∈ toText n) : c.isDigit = true :=
  Nat.isDigit_of_mem_toDigits (by norm_num) (by norm_num) h

theorem toText_inj {m n : ℕ} (h : toText m = toText n) : m = n := by
  have hread := congrArg (fun digits => Nat.ofDigitChars 10 digits 0) h
  simpa only [toText, Nat.ofDigitChars_ten_toDigits] using hread

/-- A number that is printed is read back. -/
theorem stoi_toText {n : ℕ} (h : n < 2 ^ 31) : stoi (toText n) = .ok (n : ℤ) := by
  obtain ⟨c, rest, hcons⟩ := List.exists_cons_of_ne_nil (Nat.toDigits_ne_nil (n := n) (b := 10))
  have hdigit : c.isDigit = true := by
    refine isDigit_of_mem_toText (n := n) ?_
    rw [toText, hcons]
    exact List.mem_cons_self
  obtain ⟨hlow, hhigh⟩ := Char.isDigit_iff_toNat.mp hdigit
  -- the first character is no white space and no sign
  have hspace : isSpace c = false := by
    rw [isSpace, Bool.or_eq_false_iff, beq_eq_false_iff_ne]
    constructor
    · rintro rfl
      exact absurd hlow (by decide)
    · have : ¬ c.toNat ≤ 13 := fun hle => absurd (hlow.trans hle) (by decide)
      simp [this]
  have hminus : c ≠ '-' := by
    rintro rfl
    exact absurd hlow (by decide)
  have hplus : c ≠ '+' := by
    rintro rfl
    exact absurd hlow (by decide)
  have hdrop : (toText n).dropWhile isSpace = toText n := by
    rw [toText, hcons, List.dropWhile_cons_of_neg (by rw [hspace]; exact Bool.false_ne_true)]
  have hhead : (toText n).head? = some c := by rw [toText, hcons]; rfl
  have htake : (toText n).takeWhile Char.isDigit = toText n :=
    List.takeWhile_eq_self_iff.mpr fun d hd => isDigit_of_mem_toText hd
  have hnil : toText n ≠ [] := Nat.toDigits_ne_nil
  have hvalue : Nat.ofDigitChars 10 (toText n) 0 = n := Nat.ofDigitChars_ten_toDigits
  rw [stoi]
  simp only [hdrop, hhead, Option.some.injEq, hminus, hplus, or_self, if_false, htake, hnil, hvalue]
  rw [if_pos (by omega)]

/-! ### The text of an ip -/

/-- The highest byte of an ip. -/
theorem toNat_highest_byte (ip : UInt32) :
    ((ip &&& 0xff000000) >>> 24).toNat = ip.toNat / 2 ^ 24 := by
  have hlt := ip.toNat_lt
  have hand : ip.toNat / 2 ^ 24 &&& 0xff = ip.toNat / 2 ^ 24 % 2 ^ 8 :=
    Nat.and_two_pow_sub_one_eq_mod _ 8
  have hmask : (0xff000000 : UInt32).toNat >>> 24 = 0xff := by decide
  rw [UInt32.toNat_shiftRight, UInt32.toNat_and]
  show (ip.toNat &&& (0xff000000 : UInt32).toNat) >>> 24 = _
  rw [Nat.shiftRight_and_distrib, hmask, Nat.shiftRight_eq_div_pow, hand]
  omega

theorem toNat_shiftLeft_eight (ip : UInt32) : (ip <<< 8).toNat = ip.toNat % 2 ^ 24 * 2 ^ 8 := by
  rw [UInt32.toNat_shiftLeft]
  show ip.toNat <<< 8 % 2 ^ 32 = _
  rw [Nat.shiftLeft_eq]
  omega

theorem toNat_appendByte (ip byte : UInt32) :
    (appendByte ip byte).toNat = ip.toNat % 2 ^ 24 * 2 ^ 8 + byte.toNat % 2 ^ 8 := by
  have hlow : 0xff &&& byte.toNat = byte.toNat % 2 ^ 8 := by
    rw [Nat.and_comm]
    exact Nat.and_two_pow_sub_one_eq_mod _ 8
  have hhigh : 0xffffff00 &&& ((ip.toNat % 2 ^ 24) <<< 8) = (ip.toNat % 2 ^ 24) <<< 8 := by
    have hmask : 0xffffff &&& (ip.toNat % 2 ^ 24) = ip.toNat % 2 ^ 24 := by
      rw [Nat.and_comm, show (0xffffff : ℕ) = 2 ^ 24 - 1 by norm_num,
        Nat.and_two_pow_sub_one_eq_mod, Nat.mod_mod]
    rw [show (0xffffff00 : ℕ) = 0xffffff <<< 8 from rfl, ← Nat.shiftLeft_and_distrib, hmask]
  rw [appendByte, UInt32.toNat_or, UInt32.toNat_and, UInt32.toNat_and, toNat_shiftLeft_eight,
    ← Nat.shiftLeft_eq]
  show 0xffffff00 &&& _ ||| 0xff &&& byte.toNat = _
  rw [hlow, hhigh, ← Nat.shiftLeft_add_eq_or_of_lt (Nat.mod_lt _ (by norm_num))]

theorem ipStringToHostLoop_token {token : List Char} (htoken : ∀ c ∈ token, c ≠ '.') (ip : UInt32)
    (rest : List Char) : ipStringToHostLoop ip (token ++ '.' :: rest) = (do
      let byte ← stoi token
      ipStringToHostLoop (appendByte ip (UInt32.ofInt byte)) rest) := by
  have hfind : (token ++ '.' :: rest).findIdx? (· == '.') = some token.length := by
    have hnone : token.findIdx? (· == '.') = none :=
      List.findIdx?_eq_none_iff.mpr fun c hc => beq_eq_false_iff_ne.mpr (htoken c hc)
    rw [List.findIdx?_append, hnone, List.findIdx?_cons]
    simp
  rw [ipStringToHostLoop]
  split
  · next pos hpos =>
    obtain rfl : token.length = pos := Option.some.inj (hfind.symm.trans hpos)
    dsimp only
    rw [List.take_left, ← List.drop_drop, List.drop_left]
    rfl
  · next hnone => cases hfind.symm.trans hnone

theorem ipStringToHostLoop_last {token : List Char} (htoken : ∀ c ∈ token, c ≠ '.')
    (ip : UInt32) : ipStringToHostLoop ip token = (do
      let byte ← stoi token
      pure (appendByte ip (UInt32.ofInt byte))) := by
  have hfind : token.findIdx? (· == '.') = none :=
    List.findIdx?_eq_none_iff.mpr fun c hc => beq_eq_false_iff_ne.mpr (htoken c hc)
  rw [ipStringToHostLoop]
  split
  · next pos hpos => cases hfind.symm.trans hpos
  · rfl

theorem ne_point_of_mem_toText {n : ℕ} : ∀ c ∈ toText n, c ≠ '.' := by
  rintro c hc rfl
  exact absurd (isDigit_of_mem_toText hc) (by decide)

/-- Four bytes with points between them. -/
theorem ipHostToString_eq (ip : UInt32) :
    ipHostToString ip = toText (ip.toNat / 2 ^ 24) ++ '.' ::
      (toText (ip.toNat / 2 ^ 16 % 2 ^ 8) ++ '.' ::
      (toText (ip.toNat / 2 ^ 8 % 2 ^ 8) ++ '.' :: toText (ip.toNat % 2 ^ 8))) := by
  -- the bytes behind the one that is cut off move up
  have htop : ∀ n : ℕ, n % 2 ^ 24 * 2 ^ 8 / 2 ^ 24 = n / 2 ^ 16 % 2 ^ 8 := by omega
  have hmiddle : ∀ n : ℕ, n % 2 ^ 24 * 2 ^ 8 / 2 ^ 16 % 2 ^ 8 = n / 2 ^ 8 % 2 ^ 8 := by omega
  have hlow : ∀ n : ℕ, n % 2 ^ 24 * 2 ^ 8 / 2 ^ 8 % 2 ^ 8 = n % 2 ^ 8 := by omega
  simp only [ipHostToString, Function.iterate_succ, Function.iterate_zero, Function.comp_apply,
    id_eq, nextToken, toNat_highest_byte, toNat_shiftLeft_eight, htop, hmiddle, hlow,
    List.nil_append, List.append_assoc, List.cons_append]

theorem ipStringToHost_ipHostToString (ip : UInt32) :
    ipStringToHost (ipHostToString ip) = .ok ip := by
  have hlt := ip.toNat_lt
  have hbyte : ∀ n : ℕ, n < 2 ^ 8 → (UInt32.ofInt (n : ℤ)).toNat = n := by
    intro n hn
    rw [UInt32.ofInt, UInt32.toNat_ofNat']
    omega
  have hstoi : ∀ n : ℕ, n < 2 ^ 8 → stoi (toText n) = .ok (n : ℤ) :=
    fun n hn => stoi_toText (by omega)
  have hfirst : ip.toNat / 2 ^ 24 < 2 ^ 8 := by omega
  have hrest : ∀ n : ℕ, n % 2 ^ 8 < 2 ^ 8 := fun n => Nat.mod_lt n (by norm_num)
  rw [ipStringToHost, ipHostToString_eq, ipStringToHostLoop_token ne_point_of_mem_toText,
    hstoi _ hfirst]
  show ipStringToHostLoop _ _ = _
  rw [ipStringToHostLoop_token ne_point_of_mem_toText, hstoi _ (hrest _)]
  show ipStringToHostLoop _ _ = _
  rw [ipStringToHostLoop_token ne_point_of_mem_toText, hstoi _ (hrest _)]
  show ipStringToHostLoop _ _ = _
  rw [ipStringToHostLoop_last ne_point_of_mem_toText, hstoi _ (hrest _)]
  -- the bytes are put together again
  refine congrArg Except.ok (UInt32.toNat_inj.mp ?_)
  rw [toNat_appendByte, toNat_appendByte, toNat_appendByte, toNat_appendByte, hbyte _ hfirst,
    hbyte _ (hrest _), hbyte _ (hrest _), hbyte _ (hrest _)]
  show ((((0 % 2 ^ 24 * 2 ^ 8 + _) % 2 ^ 24 * 2 ^ 8 + _) % 2 ^ 24 * 2 ^ 8 + _) % 2 ^ 24 * 2 ^ 8 + _)
    = ip.toNat
  omega

/-! ### Addresses -/

namespace IpAddress

variable {x y z : IpAddress}

theorem ne_colon_of_mem_ipHostToString {ip : UInt32} : ∀ c ∈ ipHostToString ip, c ≠ ':' := by
  have hdigit : ∀ n : ℕ, ':' ∉ toText n := fun n h =>
    absurd (isDigit_of_mem_toText h) (by decide)
  rintro c hc rfl
  rw [ipHostToString_eq] at hc
  simp [hdigit] at hc

/-- Different addresses have different texts. -/
theorem toString_inj (h : x.toString = y.toString) : x = y := by
  obtain ⟨ip, port⟩ := x
  obtain ⟨ip', port'⟩ := y
  rw [toString, toString, List.append_assoc, List.append_assoc, List.singleton_append] at h
  dsimp only at h
  -- the text of the ip ends at the colon
  have htake : ∀ (ip : UInt32) (rest : List Char),
      (ipHostToString ip ++ ':' :: rest).takeWhile (· ≠ ':') = ipHostToString ip := by
    intro ip rest
    rw [List.takeWhile_append_of_pos fun c hc =>
      decide_eq_true (ne_colon_of_mem_ipHostToString c hc)]
    simp
  have hip : ipHostToString ip = ipHostToString ip' := by
    rw [← htake ip, h]
    exact htake ip' _
  have hsame : ip = ip' := by
    have hread := congrArg ipStringToHost hip
    rw [ipStringToHost_ipHostToString, ipStringToHost_ipHostToString] at hread
    exact Except.ok.inj hread
  rw [hip] at h
  have hport := (List.cons.inj (List.append_cancel_left h)).2
  rw [hsame, UInt16.toNat_inj.mp (toText_inj hport)]

theorem lt_iff : x.lt y = true ↔ x.ip.toNat < y.ip.toNat ∨
    x.ip.toNat = y.ip.toNat ∧ x.port.toNat < y.port.toNat := by
  simp only [lt, Bool.or_eq_true, Bool.and_eq_true, decide_eq_true_eq, beq_iff_eq,
    UInt32.lt_iff_toNat_lt, UInt16.lt_iff_toNat_lt, UInt32.toNat_inj]

theorem eq_of_not_lt (hxy : ¬ x.lt y = true) (hyx : ¬ y.lt x = true) : x = y := by
  rw [lt_iff] at hxy hyx
  obtain ⟨ip, port⟩ := x
  obtain ⟨ip', port'⟩ := y
  dsimp only at hxy hyx
  have hip : ip.toNat = ip'.toNat := by omega
  have hport : port.toNat = port'.toNat := by omega
  rw [UInt32.toNat_inj.mp hip, UInt16.toNat_inj.mp hport]

theorem isStrictTotalOrder_lt : IsStrictTotalOrder IpAddress (fun x y => x.lt y = true) where
  trichotomous _ _ := eq_of_not_lt
  irrefl x h := by
    have := lt_iff.mp h
    omega
  trans x y z hxy hyz := by
    have hxy := lt_iff.mp hxy
    have hyz := lt_iff.mp hyz
    exact lt_iff.mpr (by omega)

theorem eq_iff_not_lt : x.eq y = true ↔ ¬ x.lt y = true ∧ ¬ y.lt x = true := by
  rw [eq, Bool.and_eq_true, Bool.not_eq_true', Bool.not_eq_true', Bool.not_eq_true,
    Bool.not_eq_true]

theorem eq_iff : x.eq y = true ↔ x = y := by
  rw [eq_iff_not_lt]
  constructor
  · rintro ⟨hxy, hyx⟩
    exact eq_of_not_lt hxy hyx
  · rintro rfl
    exact ⟨isStrictTotalOrder_lt.irrefl x, isStrictTotalOrder_lt.irrefl x⟩

end IpAddress

/-- **Addresses.**  An ip is read back from its text; two addresses have the same text iff
they are equal in the order, and iff they have the same ip and port; and the order is a
strict total one. -/
theorem address_text_and_order :
    (∀ ip : UInt32, ipStringToHost (ipHostToString ip) = .ok ip) ∧
    (∀ x y : IpAddress, (x.toString = y.toString ↔ x.eq y = true) ∧
      (x.eq y = true ↔ ¬ x.lt y = true ∧ ¬ y.lt x = true) ∧
      (x.eq y = true ↔ x.ip = y.ip ∧ x.port = y.port)) ∧
    IsStrictTotalOrder IpAddress (fun x y => x.lt y = true) := by
  refine ⟨ipStringToHost_ipHostToString, fun x y => ⟨?_, IpAddress.eq_iff_not_lt, ?_⟩,
    IpAddress.isStrictTotalOrder_lt⟩
  · rw [IpAddress.eq_iff]
    constructor
    · intro h
      exact IpAddress.toString_inj h
    · rintro rfl
      rfl
  · obtain ⟨ip, port⟩ := x
    obtain ⟨ip', port'⟩ := y
    rw [IpAddress.eq_iff, IpAddress.mk.injEq]

end Neptun
