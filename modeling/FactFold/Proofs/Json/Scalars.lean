import Mathlib
import FactFold.Json.Reader
import FactFold.Json.Writer
import FactFold.Proofs.Script.Pieces

namespace FactFold.Json

open Decimal

variable {cs rest done : List Char}

theorem hexNumber?_hexDigit : ∀ n < 0x20,
    Text.hexNumber? ['0', '0', hexDigit (n / 16), hexDigit (n % 16)] = some n := by
  decide

theorem text?_plain {c : Char} (hquote : c ≠ '"') (hbackslash : c ≠ '\\') (hc : 0x20 ≤ c.toNat) :
    text? none (c :: rest) done = text? none rest (c :: done) := by
  have hc : decide (c.toNat < 0x20) = false := by simpa using hc
  simp [text?, hbackslash, hquote, hc]

theorem text?_hex {c : Char} (hc : c.toNat < 0x20) :
    text? none ('\\' :: 'u' :: '0' :: '0' :: hexDigit (c.toNat / 16) :: hexDigit (c.toNat % 16) :: rest) done =
      text? none rest (c :: done) := by
  rw [text?.eq_2 _ _ _ _ _ _ _ (hexNumber?_hexDigit c.toNat hc)]
  have hhigh : isHighHalf c.toNat = false := by
    simp [isHighHalf]
    omega
  have hlow : isLowHalf c.toNat = false := by
    simp [isLowHalf]
    omega
  simp [hhigh, hlow]

theorem text?_escape (c : Char) : text? none (escape c ++ rest) done = text? none rest (c :: done) := by
  unfold escape
  split
  case h_8 hquote hbackslash _ _ _ _ _ =>
    split
    · next hc => exact text?_hex hc
    · next hc => exact text?_plain hquote hbackslash (Nat.not_lt.1 hc)
  all_goals exact text?.eq_4 _ _ _ _ (by simp) rfl

theorem text?_escapes (cs : List Char) :
    text? none (cs.flatMap escape ++ '"' :: rest) done = some (String.ofList (done.reverse ++ cs), rest) := by
  induction cs generalizing done with
  | nil => simp [text?]
  | cons c cs ih => simp [text?_escape, ih]

def Ends (rest : List Char) : Prop :=
  ∀ c ∈ rest.head?, c ∈ [',', ']', '\x7d']

theorem ends_nil : Ends [] := by
  simp [Ends]

theorem ends_cons_iff {c : Char} : Ends (c :: rest) ↔ c = ',' ∨ c = ']' ∨ c = '\x7d' := by
  simp [Ends]

theorem Ends.isDigit (h : Ends rest) : ∀ c ∈ rest.head?, c.isDigit = false := by
  cases rest with
  | nil => simp
  | cons c rest => rcases ends_cons_iff.1 h with rfl | rfl | rfl <;> simp

theorem takeWhile_append_ends {p : Char → Bool} (cs : List Char) (h : ∀ c ∈ rest.head?, p c = false) :
    (cs ++ rest).takeWhile p = cs.takeWhile p ∧ (cs ++ rest).dropWhile p = cs.dropWhile p ++ rest := by
  induction cs with
  | nil => cases rest <;> simp_all
  | cons c cs ih => by_cases hc : p c <;> simp [hc, ih]

theorem digitRun_append (h : Ends rest) (cs : List Char) : digitRun (cs ++ rest) = digitRun cs := by
  rw [digitRun, digitRun, (takeWhile_append_ends cs h.isDigit).1]

theorem exponentRun_append (h : Ends rest) (cs : List Char) : exponentRun (cs ++ rest) = exponentRun cs := by
  rcases cs with _ | ⟨e, _ | ⟨sign, cs⟩⟩
  · rcases rest with _ | ⟨c, _ | ⟨sign, rest⟩⟩
    · rfl
    · rfl
    · rcases ends_cons_iff.1 h with rfl | rfl | rfl <;> rfl
  · rcases rest with _ | ⟨c, rest⟩
    · rfl
    · have hrun : digitRun (c :: rest) = 0 := digitRun_append h []
      have hsign : ¬ (c = '+' ∨ c = '-') := by
        rcases ends_cons_iff.1 h with rfl | rfl | rfl <;> decide
      simp [exponentRun, hrun, hsign]
  · have hrun : digitRun (sign :: (cs ++ rest)) = digitRun (sign :: cs) := digitRun_append h (sign :: cs)
    simp [exponentRun, digitRun_append h, hrun]

def pointPart : List Char → Option (List Char) × List Char
  | '.' :: rest => (some (rest.takeWhile Char.isDigit), rest.dropWhile Char.isDigit)
  | cs => (none, cs)

def numeral? (negative : Bool) (whole : List Char) (fraction : Option (List Char)) (exponent : Option Int) :
    Option Json :=
  let n := digitsValue whole
  if fraction.isNone && exponent.isNone && (if negative then 0 < n && n ≤ UInt64.size / 2 else n < UInt64.size) then
    some (.int (if negative then -n else n))
  else
    (magnitude? whole (fraction.getD []) (exponent.getD 0)).map fun x => .float (if negative then -x else x)

def assemble? (negative : Bool) (whole : List Char) (fraction : Option (List Char)) (cs : List Char) :
    Option (Json × List Char) :=
  let exponent :=
    if exponentRun cs = 0 then none else some (exponentValue (cs.take (exponentRun cs)))
  let rest := cs.drop (exponentRun cs)
  if fraction == some [] then none
  else if rest.head? == some 'e' || rest.head? == some 'E' then none
  else (numeral? negative whole fraction exponent).map (·, rest)

theorem number?_eq (negative : Bool) (cs : List Char) : number? negative cs =
    let whole := cs.takeWhile Char.isDigit
    if whole.isEmpty || (whole.head? == some '0' && whole.length > 1) then none
    else
      assemble? negative whole (pointPart (cs.dropWhile Char.isDigit)).1 (pointPart (cs.dropWhile Char.isDigit)).2 := by
  unfold number? assemble? numeral? pointPart
  simp only [apply_ite (Option.map _), Option.map_map]
  cases cs.dropWhile Char.isDigit with
  | nil => rfl
  | cons c rest => by_cases hc : c = '.' <;> simp [hc] <;> rfl

theorem pointPart_append (h : Ends rest) (cs : List Char) :
    pointPart (cs ++ rest) = ((pointPart cs).1, (pointPart cs).2 ++ rest) := by
  cases cs with
  | nil =>
    cases rest with
    | nil => rfl
    | cons c rest =>
      have hc : c ≠ '.' := by
        rcases ends_cons_iff.1 h with rfl | rfl | rfl <;> decide
      simp [pointPart, hc]
  | cons c cs =>
    by_cases hc : c = '.'
    · obtain ⟨htake, hdrop⟩ := takeWhile_append_ends cs h.isDigit
      simp [pointPart, hc, htake, hdrop]
    · simp [pointPart, hc]

theorem assemble?_append {negative : Bool} {whole : List Char} {fraction : Option (List Char)} {j : Json}
    {after : List Char} (h : assemble? negative whole fraction cs = some (j, after)) (hrest : Ends rest) :
    assemble? negative whole fraction (cs ++ rest) = some (j, after ++ rest) := by
  have hle := (Script.local_exponentRun cs).1
  unfold assemble? at h ⊢
  rw [exponentRun_append hrest, List.take_append_of_le_length hle, List.drop_append_of_le_length hle]
  dsimp only at h ⊢
  generalize cs.drop (exponentRun cs) = tail at h ⊢
  generalize (if exponentRun cs = 0 then none else some (exponentValue (cs.take (exponentRun cs)))) = exponent at h ⊢
  have hmark : ((tail ++ rest).head? == some 'e' || (tail ++ rest).head? == some 'E') =
      (tail.head? == some 'e' || tail.head? == some 'E') := by
    cases tail with
    | cons c tail => rfl
    | nil =>
      cases rest with
      | nil => rfl
      | cons c rest => rcases ends_cons_iff.1 hrest with rfl | rfl | rfl <;> rfl
  rw [hmark]
  split at h
  · cases h
  · next hfraction =>
    rw [if_neg hfraction]
    split at h
    · cases h
    · next htail =>
      rw [if_neg htail]
      obtain ⟨j, hj, he⟩ := Option.map_eq_some_iff.1 h
      cases he
      rw [hj]
      rfl

theorem number?_append {negative : Bool} {j : Json} {after : List Char} (h : number? negative cs = some (j, after))
    (hrest : Ends rest) : number? negative (cs ++ rest) = some (j, after ++ rest) := by
  rw [number?_eq] at h ⊢
  obtain ⟨hwhole, hafter⟩ := takeWhile_append_ends cs hrest.isDigit
  rw [hwhole, hafter, pointPart_append hrest]
  dsimp only at h ⊢
  split at h
  · cases h
  · next hw =>
    rw [if_neg hw]
    exact assemble?_append h hrest

theorem exists_digit {negative : Bool} {result : Json × List Char} (h : number? negative cs = some result) :
    ∃ c tail, cs = c :: tail ∧ c.isDigit = true := by
  rw [number?_eq] at h
  dsimp only at h
  split at h
  · cases h
  · next hwhole =>
    cases cs with
    | nil => simp at hwhole
    | cons c tail =>
      refine ⟨c, tail, rfl, ?_⟩
      by_contra hc
      simp [hc] at hwhole

theorem tree?_digit {c : Char} (hc : c.isDigit = true) (depth : Nat) (cs : List Char) :
    tree? depth (c :: cs) = number? false (c :: cs) := by
  rw [tree?.eq_def]
  split
  case h_8 => rfl
  all_goals
    next heq =>
    obtain ⟨rfl, -⟩ := List.cons.inj heq
    cases hc

theorem tree?_append {depth : Nat} {j : Json} (h : tree? 0 cs = some (j, []))
    (hj : (∃ n, j = .int n) ∨ ∃ x, j = .float x) (hrest : Ends rest) :
    tree? depth (cs ++ rest) = some (j, rest) := by
  have hword {a : Json} {o : Option (List Char)} (ho : o.map (a, ·) = some (j, [])) : a = j := by
    obtain ⟨_, -, he⟩ := Option.map_eq_some_iff.1 ho
    exact congrArg Prod.fst he
  rw [tree?.eq_def] at h
  split at h
  · simp [← hword h] at hj
  · simp [← hword h] at hj
  · simp [← hword h] at hj
  · obtain ⟨_, -, he⟩ := Option.map_eq_some_iff.1 h
    obtain rfl : _ = j := congrArg Prod.fst he
    simp at hj
  · rw [List.cons_append, tree?.eq_def]
    exact number?_append h hrest
  · cases h
  · cases h
  · obtain ⟨c, tail, rfl, hc⟩ := exists_digit h
    rw [List.cons_append, tree?_digit hc]
    exact number?_append h hrest

theorem toDigits_head {n : Nat} (hn : n ≠ 0) : (Nat.toDigits 10 n).head? ≠ some '0' := by
  induction n using Nat.strongRecOn with
  | ind n ih =>
    rw [Nat.toDigits_eq_if (by omega)]
    split
    · next h =>
      have : ∀ n < 10, n ≠ 0 → [n.digitChar].head? ≠ some '0' := by decide
      exact this n h hn
    · next h =>
      rw [List.head?_append]
      have := ih (n / 10) (by omega) (by omega)
      cases hd : (Nat.toDigits 10 (n / 10)).head? with
      | none => exact absurd (List.head?_eq_none_iff.1 hd) Nat.toDigits_ne_nil
      | some c => simpa [hd] using this

theorem number?_toDigits (negative : Bool) (n : Nat)
    (h : if negative then 0 < n ∧ n ≤ UInt64.size / 2 else n < UInt64.size) :
    number? negative (Nat.toDigits 10 n) = some (.int (if negative then -n else n), []) := by
  have hdigits : ∀ c ∈ Nat.toDigits 10 n, c.isDigit = true := fun c hc =>
    Nat.isDigit_of_mem_toDigits (by omega) (by omega) hc
  have hvalue : digitsValue (Nat.toDigits 10 n) = n := Nat.ofDigitChars_ten_toDigits
  have hzero : ¬ ((Nat.toDigits 10 n).isEmpty ||
      ((Nat.toDigits 10 n).head? == some '0' && (Nat.toDigits 10 n).length > 1)) := by
    by_cases hn : n = 0
    · subst hn
      decide
    · simp [toDigits_head hn]
  rw [number?_eq, List.takeWhile_eq_self_iff.2 hdigits, List.dropWhile_eq_nil_iff.2 hdigits]
  dsimp only
  rw [if_neg hzero]
  simp [assemble?, pointPart, exponentRun, numeral?, hvalue]
  cases negative <;> simpa using h

theorem tree?_int {n : Int} (hmin : -(2 : Int) ^ 63 ≤ n) (hmax : n < 2 ^ 64) :
    tree? 0 (toString n).toList = some (.int n, []) := by
  have hsize : UInt64.size = 2 ^ 64 := rfl
  rw [Int.toString_eq_repr]
  obtain ⟨m, rfl | rfl⟩ : ∃ m : Nat, n = m ∨ n = -(m + 1 : Nat) := by
    cases n with
    | ofNat m => exact ⟨m, .inl rfl⟩
    | negSucc m => exact ⟨m, .inr rfl⟩
  · have hdigits := number?_toDigits false m (by rw [hsize]; simp; omega)
    obtain ⟨c, tail, hcs, hc⟩ := exists_digit hdigits
    have hrepr : (Int.repr m).toList = Nat.toDigits 10 m := Nat.toList_repr
    rw [hrepr, hcs, tree?_digit hc, ← hcs]
    exact hdigits
  · have hdigits := number?_toDigits true (m + 1) (by rw [hsize]; simp; omega)
    have hrepr : (Int.repr (-(m + 1 : Nat))).toList = '-' :: Nat.toDigits 10 (m + 1) := by
      change ("-" ++ Nat.repr (m + 1)).toList = _
      rw [String.toList_append, Nat.toList_repr]
      rfl
    rw [hrepr, tree?.eq_def]
    exact hdigits

def ReadsBack (x : Float) : Prop :=
  tree? 0 (floatLayout.write x).toList = some (.float x, [])

end FactFold.Json
