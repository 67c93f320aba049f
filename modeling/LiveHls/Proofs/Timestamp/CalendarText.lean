import LiveHls.Timestamp.Reader
import LiveHls.Proofs.Timestamp.Calendar
import LiveHls.Proofs.Timestamp.Tokens
/-! The calendar text of a time names that time: it is read as the date and the time of the day that
were written, and these as the moment that they come from. -/
namespace LiveHls.Timestamp

open Decimal (Ends ends_cons)

variable {year : Int} {month dayOfMonth hour minute second milli : Nat} {rest : List Char}

/-- Four digits, or a sign and six. -/
def yearTokens (year : Int) : List Token :=
  if 0 ≤ year ∧ year ≤ 9999 then [.number year.toNat 4]
  else [.symbol (if year < 0 then '-' else '+'), .number year.natAbs 6]

theorem tokens_yearText (few : year.natAbs < 1000000) (ends : Ends rest) :
    tokens (yearText year ++ rest) = yearTokens year ++ tokens rest := by
  by_cases four : 0 ≤ year ∧ year ≤ 9999
  · have fits : year.toNat < Nat.pow 10 4 := by
      show _ < 10000
      omega
    rw [yearText, yearTokens, if_pos four, if_pos four]
    exact tokens_padded fits (by decide) (by decide) ends
  · have fits : year.natAbs < Nat.pow 10 6 := few
    have number := tokens_padded fits (by decide) (by decide) ends
    have sign : (if year < 0 then '-' else '+') = '-' ∨ (if year < 0 then '-' else '+') = '+' ∨
        (if year < 0 then '-' else '+') = ':' ∨ (if year < 0 then '-' else '+') = '.' := by
      split
      · exact .inl rfl
      · exact .inr (.inl rfl)
    rw [yearText, yearTokens, if_neg four, if_neg four, List.cons_append, tokens_sign sign, number]
    rfl

/-- The time of the day, and universal time. -/
def timeTokens (hour minute second milli : Nat) : List Token :=
  [.number hour 2, .symbol ':', .number minute 2, .symbol ':', .number second 2, .symbol '.',
    .number milli 3, .word (.zone 0) 1]

def timeText (hour minute second milli : Nat) : List Char :=
  padded 2 hour ++ ':' :: (padded 2 minute ++ ':' :: (padded 2 second ++
    '.' :: (padded 3 milli ++ ['Z'])))

theorem tokens_timeText (hours : hour < 24) (minutes : minute < 60) (seconds : second < 60)
    (millis : milli < 1000) :
    tokens (timeText hour minute second milli) = timeTokens hour minute second milli := by
  have two {n : Nat} (few : n < 60) : n < Nat.pow 10 2 := Nat.lt_trans few (by decide)
  have sign {c : Char} (known : c = ':' ∨ c = '.') (cs : List Char) :
      tokens (c :: cs) = .symbol c :: tokens cs := tokens_sign (.inr (.inr known)) cs
  rw [timeText, tokens_padded (two (by omega)) (by decide) (by decide) (ends_cons rfl _),
    sign (.inl rfl), tokens_padded (two minutes) (by decide) (by decide) (ends_cons rfl _),
    sign (.inl rfl), tokens_padded (two seconds) (by decide) (by decide) (ends_cons rfl _),
    sign (.inr rfl), tokens_padded millis (by decide) (by decide) (ends_cons rfl _)]
  rfl

theorem tokens_calendarText (years : year.natAbs < 1000000) (months : month < 100)
    (days : dayOfMonth < 100) (hours : hour < 24) (minutes : minute < 60) (seconds : second < 60)
    (millis : milli < 1000) :
    tokens (yearText year ++ '-' :: (padded 2 month ++ '-' :: (padded 2 dayOfMonth ++
        'T' :: timeText hour minute second milli))) =
      yearTokens year ++ [.symbol '-', .number month 2, .symbol '-', .number dayOfMonth 2,
        .word .separator 1] ++ timeTokens hour minute second milli := by
  have letter := tokens_separator (digits_padded 2 hour) (padded_ne_nil 2 hour)
  rw [tokens_yearText years (ends_cons rfl _), tokens_sign (.inl rfl),
    tokens_padded months (by decide) (by decide) (ends_cons rfl _), tokens_sign (.inl rfl),
    tokens_padded days (by decide) (by decide) (ends_cons rfl _), timeText, letter,
    ← timeText, tokens_timeText hours minutes seconds millis]
  simp

/-! ### Reading -/

theorem readForm_yearTokens (year : Int) (rest : List Token) :
    readForm (yearTokens year ++ rest) = readMonth { Draft.blank with date := [year] } rest := by
  unfold yearTokens
  split
  · rename_i four
    have same : (year.toNat : Int) = year := Int.toNat_of_nonneg four.1
    simp only [List.singleton_append, readForm, same]
  · rename_i six
    by_cases negative : year < 0
    · have zero : ¬ year.natAbs = 0 := by omega
      have same : Binary64.signed true year.natAbs = year := by
        rw [Binary64.signed, if_pos rfl]
        omega
      simp [readForm, negative, zero, same]
    · have same : Binary64.signed false year.natAbs = year := by
        rw [Binary64.signed, if_neg Bool.false_ne_true]
        omega
      simp [readForm, negative, same]

theorem readTime?_timeTokens (d : Draft) (hours : hour < 24) (minutes : minute < 60)
    (seconds : second < 60) :
    readTime? d (timeTokens hour minute second milli) =
      some ({ d with time := [hour, minute, second, milli] }.setZone 0) := by
  have whole : fraction milli 3 = milli := Nat.div_one milli
  have early : ¬ 24 < hour ∧ ¬ 60 ≤ minute ∧ ¬ 60 ≤ second ∧ ¬ hour = 24 := by omega
  simp [timeTokens, readTime?, readSeconds?, readZone?, early, whole]

/-- What has been read of the text of a date and a time. -/
def drafted (year : Int) (month dayOfMonth hour minute second milli : Nat) : Draft :=
  { Draft.blank with
    date := [year, month, dayOfMonth]
    ordered := true
    time := [hour, minute, second, milli]
    behind := some false
    zoneHours := some 0
    zoneMinutes := some 0 }

theorem readForm_calendarTokens (months : 1 ≤ month ∧ month ≤ 12)
    (days : 1 ≤ dayOfMonth ∧ dayOfMonth ≤ 31) (hours : hour < 24) (minutes : minute < 60)
    (seconds : second < 60) :
    readForm (yearTokens year ++ [.symbol '-', .number month 2, .symbol '-', .number dayOfMonth 2,
        .word .separator 1] ++ timeTokens hour minute second milli) =
      .complete (drafted year month dayOfMonth hour minute second milli) := by
  have time (d : Draft) : readTime? d (timeTokens hour minute second milli) =
      some ({ d with time := [hour, minute, second, milli] }.setZone 0) :=
    readTime?_timeTokens d hours minutes seconds
  rw [List.append_assoc, readForm_yearTokens]
  simp [readMonth, skipSymbol, months, days, readRest, time]
  rfl

theorem timestamp_drafted (months : 1 ≤ month ∧ month ≤ 12)
    (days : 1 ≤ dayOfMonth ∧ dayOfMonth ≤ 31) (hours : hour < 24) (minutes : minute < 60)
    (seconds : second < 60) (millis : milli < 1000) :
    (drafted year month dayOfMonth hour minute second milli).timestamp =
      ofMillis ((firstOfMonth year month + (dayOfMonth - 1 : Nat)) * millisPerDay +
        (((hour * 60 + minute) * 60 + second) * 1000 + milli : Nat)) := by
  have day : (drafted year month dayOfMonth hour minute second milli).day? =
      some (year, month, dayOfMonth) := by
    simp [drafted, Draft.day?, Draft.blank, months, days]
  have time : (drafted year month dayOfMonth hour minute second milli).millis? =
      some (((hour * 60 + minute) * 60 + second) * 1000 + milli) := by
    simp [drafted, Draft.millis?, Draft.blank, hours, minutes, seconds, millis]
  have universal : (drafted year month dayOfMonth hour minute second milli).offset = 0 := by
    simp [drafted, Draft.offset]
  rw [Draft.timestamp, day, time, universal]
  simp only [Int.sub_zero]

theorem ofMillis_within {moment : Int} (within : moment.natAbs ≤ limit) :
    ofMillis moment = @Timestamp.at moment within := dif_pos within

/-- The text of a time: its day as a date, and the rest as hours, minutes, seconds and
milliseconds. -/
theorem text?_at {moment day : Int} {rest : Nat} (split : moment = day * millisPerDay + rest)
    (inDay : rest < 86400000) (date : civil day = (year, month, dayOfMonth))
    {within : moment.natAbs ≤ limit} :
    (@Timestamp.at moment within).text? = some (String.ofList (yearText year ++
      '-' :: (padded 2 month ++ '-' :: (padded 2 dayOfMonth ++ 'T' ::
        timeText (rest / 3600000) (rest / 60000 % 60) (rest / 1000 % 60) (rest % 1000))))) := by
  have ofDay : Int.fdiv moment millisPerDay = day := by
    rw [Int.fdiv_eq_ediv_of_nonneg _ (by decide), split]
    unfold millisPerDay
    omega
  have ofRest : (moment - day * millisPerDay).toNat = rest := by omega
  simp only [text?, ofDay, ofRest, date, timeText, List.append_assoc, List.cons_append]

/-- What is written is read as the time that it was written for. -/
theorem parse_text? {time : Timestamp} {text : String} (written : time.text? = some text) :
    parse text = time := by
  cases time with
  | invalid => cases written
  | @«at» moment within =>
      have limited : moment.natAbs ≤ 8640000000000000 := within
      obtain ⟨day, rest, split, inDay⟩ : ∃ (day : Int) (rest : Nat),
          moment = day * millisPerDay + rest ∧ rest < 86400000 := by
        refine ⟨moment / millisPerDay, (moment % millisPerDay).toNat, ?_, ?_⟩
        all_goals
          unfold millisPerDay
          omega
      have few : day.natAbs ≤ 100000000 := by
        rw [split] at limited
        unfold millisPerDay at limited
        omega
      obtain ⟨months, days, begins, years⟩ := civil_isDate day
      generalize date : civil day = found at months days begins years
      obtain ⟨year, month, dayOfMonth⟩ := found
      dsimp only at months days begins years
      rw [text?_at split inDay date] at written
      cases written
      have hours : rest / 3600000 < 24 := by omega
      have minutes : rest / 60000 % 60 < 60 := by omega
      have seconds : rest / 1000 % 60 < 60 := by omega
      have millis : rest % 1000 < 1000 := by omega
      have whole : ((rest / 3600000 * 60 + rest / 60000 % 60) * 60 + rest / 1000 % 60) * 1000 +
          rest % 1000 = rest := by omega
      rw [parse, String.toList_ofList, tokens_calendarText (by omega) (by omega) (by omega) hours
        minutes seconds millis, readForm_calendarTokens months days hours minutes seconds]
      dsimp only
      rw [timestamp_drafted months days hours minutes seconds millis, begins, whole, ← split,
        ofMillis_within within]

end LiveHls.Timestamp
