import DealerBot.Foundations.Calendar
import DealerBot.Foundations.Http

/-!
# The Date of a Response

`make_date_field_value` (`message_builders.hpp`) writes the time of the system clock as the
value of the field `Date`, with `gmtime_r` and `strftime`.

- `timegm_makeGmtime`: the broken-down time stands for the time it was made of
- `makeDateFieldValue_valid`: the text can be the value of a header field
-/

namespace DealerBot.Restinio

open Foundations
open Foundations.Codec (isEol)
open Foundations.Http (ValidField isOws)

/-! ## §1 Broken-down time -/

/-- `std::tm`, as far as the format of the date uses it. -/
structure Tm extends Calendar.Date where
  hour : Fin 24
  min : Fin 60
  sec : Fin 60
  wday : Fin 7
  deriving DecidableEq, Repr

/-- `make_gmtime`: seconds since 1 January 1970, as a date and a time of day. -/
def makeGmtime (t : Int) : Tm :=
  let days := t / 86400
  let s := (t % 86400).toNat
  have hs : s < 86400 := by omega
  { Calendar.ofDays days with
    hour := ⟨s / 3600, by omega⟩
    min := ⟨s / 60 % 60, Nat.mod_lt _ (by decide)⟩
    sec := ⟨s % 60, Nat.mod_lt _ (by decide)⟩
    wday := Calendar.weekday days }

/-- The inverse of `gmtime`. -/
def Tm.timegm (tm : Tm) : Int :=
  tm.toDate.days * 86400 + ((tm.hour : Nat) * 3600 + (tm.min : Nat) * 60 + (tm.sec : Nat) : Nat)

/-- **The broken-down time is right**: it leads back to the second it was made of. -/
theorem timegm_makeGmtime (t : Int) : (makeGmtime t).timegm = t := by
  have hdate : (makeGmtime t).toDate = Calendar.ofDays (t / 86400) := rfl
  rw [Tm.timegm, hdate, Calendar.days_ofDays]
  simp only [makeGmtime]
  omega

/-! ## §2 The text -/

/-- `%d`, `%H`, `%M` and `%S`. -/
def twoDigits (n : Nat) : List Char := [Nat.digitChar (n / 10 % 10), Nat.digitChar (n % 10)]

/-- `%a`. -/
def weekdayName : Fin 7 → List Char
  | 0 => "Sun".toList
  | 1 => "Mon".toList
  | 2 => "Tue".toList
  | 3 => "Wed".toList
  | 4 => "Thu".toList
  | 5 => "Fri".toList
  | 6 => "Sat".toList

/-- `%b`. -/
def monthName : Fin 12 → List Char
  | 0 => "Jan".toList
  | 1 => "Feb".toList
  | 2 => "Mar".toList
  | 3 => "Apr".toList
  | 4 => "May".toList
  | 5 => "Jun".toList
  | 6 => "Jul".toList
  | 7 => "Aug".toList
  | 8 => "Sep".toList
  | 9 => "Oct".toList
  | 10 => "Nov".toList
  | 11 => "Dec".toList

/-- `%Y`; the years of a system clock have four digits. -/
def yearText : Int → List Char
  | .ofNat n => Nat.toDigits 10 n
  | .negSucc n => '-' :: Nat.toDigits 10 (n + 1)

/-- `"%a, %d %b %Y %H:%M:%S GMT"`. -/
def dateText (tm : Tm) : List Char :=
  weekdayName tm.wday ++ ", ".toList ++ twoDigits (tm.day + 1) ++ " ".toList ++
    monthName tm.month ++ " ".toList ++ yearText tm.year ++ " ".toList ++
    twoDigits tm.hour ++ ":".toList ++ twoDigits tm.min ++ ":".toList ++ twoDigits tm.sec ++
    " GMT".toList

def makeDateFieldValue (t : Int) : String := String.ofList (dateText (makeGmtime t))

example : makeDateFieldValue 0 = "Thu, 01 Jan 1970 00:00:00 GMT" := by decide

example : makeDateFieldValue 951782399 = "Mon, 28 Feb 2000 23:59:59 GMT" := by decide

/-! ## §3 As the value of a field -/

/-- The text fits into the 64 characters that `strftime` is given. -/
theorem length_dateText_lt {tm : Tm} (hyear : tm.year.natAbs < 10 ^ 10) :
    (dateText tm).length < 64 := by
  -- a sign and ten digits; all other parts have a fixed length
  have hyear' : (yearText tm.year).length ≤ 11 := by
    unfold yearText
    split
    · rename_i n hn
      rw [hn] at hyear
      exact le_trans ((Nat.length_toDigits_le_iff (by decide) (by decide)).mpr hyear) (by decide)
    · rename_i n hn
      rw [hn] at hyear
      exact Nat.succ_le_succ ((Nat.length_toDigits_le_iff (by decide) (by decide)).mpr hyear)
  have hweekday : (weekdayName tm.wday).length = 3 :=
    (by decide : ∀ d, (weekdayName d).length = 3) _
  have hmonth : (monthName tm.month).length = 3 :=
    (by decide : ∀ m, (monthName m).length = 3) _
  have hend : ", ".toList.length = 2 ∧ " ".toList.length = 1 ∧ ":".toList.length = 1 ∧
      " GMT".toList.length = 4 := by decide
  simp only [dateText, List.length_append, hweekday, hmonth, twoDigits, List.length_cons,
    List.length_nil, hend]
  omega

/-- The printable characters of ASCII. -/
def isPrint (c : Char) : Bool := 32 ≤ c.toNat ∧ c.toNat < 127

theorem isEol_of_isPrint {c : Char} (h : isPrint c = true) :
    isEol (UInt8.ofNat c.toNat) = false := by
  obtain ⟨hlow, hhigh⟩ := of_decide_eq_true h
  have hnat : (UInt8.ofNat c.toNat).toNat = c.toNat :=
    UInt8.toNat_ofNat_of_lt' (lt_trans hhigh (by decide))
  simp only [isEol, decide_eq_false_iff_not, not_or, ← UInt8.toNat_inj, hnat, UInt8.reduceToNat]
  omega

theorem isPrint_of_isDigit {c : Char} (h : c.isDigit = true) : isPrint c = true := by
  obtain ⟨hlow, hhigh⟩ := Char.isDigit_iff_toNat.mp h
  exact decide_eq_true ⟨le_trans (by decide) hlow, lt_of_le_of_lt hhigh (by decide)⟩

theorem all_isPrint_twoDigits (n : Nat) : (twoDigits n).all isPrint = true := by
  have hdigit : ∀ d : Fin 10, isPrint (Nat.digitChar d) = true := by decide
  rw [twoDigits, List.all_cons, List.all_cons, List.all_nil, Bool.and_true, Bool.and_eq_true]
  exact ⟨hdigit ⟨n / 10 % 10, Nat.mod_lt _ (by decide)⟩, hdigit ⟨n % 10, Nat.mod_lt _ (by decide)⟩⟩

/-- A year is made of digits, and of a sign at most. -/
theorem all_isPrint_yearText (year : Int) : (yearText year).all isPrint = true := by
  have hdigits : ∀ n, (Nat.toDigits 10 n).all isPrint = true := by
    intro n
    refine List.all_eq_true.mpr fun c hc => isPrint_of_isDigit ?_
    exact Nat.isDigit_of_mem_toDigits (by decide) (by decide) hc
  unfold yearText
  split
  · exact hdigits _
  · rw [List.all_cons, hdigits]
    decide

/-- Whatever the time is, its text is printable. -/
theorem all_isPrint_dateText (tm : Tm) : (dateText tm).all isPrint = true := by
  have hweekday : ∀ d, (weekdayName d).all isPrint = true := by decide
  have hmonth : ∀ m, (monthName m).all isPrint = true := by decide
  have hbetween : ", ".toList.all isPrint = true ∧ " ".toList.all isPrint = true ∧
      ":".toList.all isPrint = true ∧ " GMT".toList.all isPrint = true := by decide
  simp only [dateText, List.all_append, hweekday, hmonth, hbetween, all_isPrint_twoDigits,
    all_isPrint_yearText, Bool.and_true]

/-- **The date can be sent**, whatever the clock says: the value has no line end in it and
    no space around it. -/
theorem makeDateFieldValue_valid (t : Int) :
    ValidField (ascii "Date".toList) (ascii (makeDateFieldValue t).toList) := by
  have htext : (makeDateFieldValue t).toList = dateText (makeGmtime t) := String.toList_ofList
  rw [htext]
  refine ⟨by decide, List.all_eq_true.mp (by decide), fun b hb => ?_, ?_⟩
  · obtain ⟨c, hc, rfl⟩ := List.mem_map.mp hb
    exact isEol_of_isPrint (List.all_eq_true.mp (all_isPrint_dateText _) c hc)
  · -- it begins with the name of a day and ends with `GMT`
    refine Http.trim_eq_self_of_ends (fun b hb => ?_) fun b hb => ?_
    · have hname : ∀ d, (weekdayName d).head?.any
          (fun c => isOws (UInt8.ofNat c.toNat) = false) = true := by decide
      obtain ⟨c, hc, hows⟩ := (Option.any_eq_true _ _).mp (hname (makeGmtime t).wday)
      simp only [ascii, dateText, List.append_assoc, List.head?_map, List.head?_append, hc,
        Option.some_or, Option.map_some, Option.mem_def, Option.some.injEq] at hb
      exact hb ▸ of_decide_eq_true hows
    · have hend : " GMT".toList.getLast? = some 'T' := by decide
      simp only [ascii, dateText, List.getLast?_map, List.getLast?_append, hend, Option.some_or,
        Option.map_some, Option.mem_def, Option.some.injEq] at hb
      exact hb ▸ (by decide)

end DealerBot.Restinio
