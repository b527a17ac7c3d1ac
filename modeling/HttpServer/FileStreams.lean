import HttpServer.StaticFileHandler

/-!
# Reading a file that changes

`read_file` takes what its stream delivers: the file may grow or shrink while it is
read, and reading may fail at any point.  The stream is therefore a sequence of
reads, of which only the size is known, and not the content of a file.

* `readRounds_eq_reading_iff`: what is known as long as the loop goes on; the room
  that is left is never negative;
* `readRounds_returns`: the loop ends, since every read but the last fills its buffer;
* `readStream_eq_some_iff`, `readStream_eq_none_iff`: when it ends with a result;
* `readStream_streamOf`: on a file that does not change it is the loop that the
  handler has been modelled with.
-/

namespace HttpServer

namespace StaticFileHandler

section Streams

/--
The reads of an opened file, in their order.  A read fills at most the buffer, and
less only at the end of the file or where reading fails.
-/
structure FileStream where
  read : Nat → Delivery
  length_le : ∀ n, (read n).bytes.length ≤ 8192
  full_of_good : ∀ n, (read n).state = .good → (read n).bytes.length = 8192

/-- The bytes of the first reads of a stream. -/
def delivered (stream : FileStream) : Nat → Bytes
  | 0 => []
  | n + 1 => delivered stream n ++ (stream.read n).bytes

/-- The loop of `read_file` goes on with a body, or has returned. -/
inductive ReadProgress
  | reading (body : Bytes)
  | returned (result : Option Bytes)

/-- One round of the loop, the test of the stream behind it included. -/
def readRound (maxFileBytes : Nat) (delivery : Delivery) : ReadProgress → ReadProgress
  | .returned result => .returned result
  | .reading body =>
      if (maxFileBytes + sizeBound - body.length) % sizeBound < delivery.bytes.length then
        .returned none
      else
        match delivery.state with
        | .good => .reading (body ++ delivery.bytes)
        | .eof => .returned (some (body ++ delivery.bytes))
        | .bad => .returned none

def readRounds (maxFileBytes : Nat) (stream : FileStream) : Nat → ReadProgress
  | 0 => .reading []
  | n + 1 => readRound maxFileBytes (stream.read n) (readRounds maxFileBytes stream n)

/-- The loop goes on to the read with this number. -/
def MakesRead (maxFileBytes : Nat) (stream : FileStream) (n : Nat) : Prop :=
  ∃ body, readRounds maxFileBytes stream n = .reading body

/-- `read_file` on a stream, or on a file that could not be opened. -/
def readStream (maxFileBytes : Nat) : Option FileStream → Option Bytes
  | none => none
  | some stream =>
      match readRounds maxFileBytes stream (maxFileBytes / 8192 + 1) with
      | .reading _ => none
      | .returned result => result

/-- As long as the stream is good every read has filled the buffer. -/
theorem length_delivered
    {stream : FileStream}
    {n : Nat}
    (h : ∀ k < n, (stream.read k).state = .good) :
    (delivered stream n).length = 8192 * n := by
  induction n with
  | zero => rfl
  | succ n ih =>
      rw [delivered, List.length_append, ih (fun k hk => h k (by omega)),
        stream.full_of_good n (h n (by omega))]
      omega

variable {maxFileBytes : Nat} (hmax : maxFileBytes < sizeBound)

include hmax

/-- A round on a body within the bound compares with the room that there is. -/
theorem readRound_reading
    (delivery : Delivery)
    {body : Bytes}
    (hbody : body.length ≤ maxFileBytes) :
    readRound maxFileBytes delivery (.reading body) =
      if maxFileBytes < (body ++ delivery.bytes).length then .returned none
      else
        match delivery.state with
        | .good => .reading (body ++ delivery.bytes)
        | .eof => .returned (some (body ++ delivery.bytes))
        | .bad => .returned none := by
  rw [readRound, room_eq hmax hbody, List.length_append]
  refine if_congr ?_ rfl rfl
  omega

/--
The loop goes on exactly as long as the stream is good and what it has delivered is
within the bound, and this is then the body.
-/
theorem readRounds_eq_reading_iff
    (stream : FileStream)
    (n : Nat)
    (body : Bytes) :
    readRounds maxFileBytes stream n = .reading body ↔
      (∀ k < n, (stream.read k).state = .good) ∧ body = delivered stream n ∧
        body.length ≤ maxFileBytes := by
  induction n generalizing body with
  | zero =>
      rw [readRounds, delivered]
      constructor
      · rintro h
        cases h
        exact ⟨by simp, rfl, by simp⟩
      · rintro ⟨_, rfl, _⟩
        rfl
  | succ n ih =>
      rw [readRounds, delivered]
      cases hprogress : readRounds maxFileBytes stream n with
      | returned result =>
          rw [readRound]
          constructor
          · intro h
            cases h
          · rintro ⟨hgood, rfl, hlength⟩
            rw [List.length_append] at hlength
            have hreading := (ih (delivered stream n)).2
              ⟨fun k hk => hgood k (by omega), rfl, by omega⟩
            rw [hprogress] at hreading
            cases hreading
      | reading front =>
          obtain ⟨hgood, rfl, hfront⟩ := (ih front).1 hprogress
          rw [readRound_reading hmax _ hfront]
          constructor
          · intro h
            split_ifs at h with hroom
            cases hstate : (stream.read n).state with
            | good =>
                simp only [hstate, ReadProgress.reading.injEq] at h
                subst h
                refine ⟨fun k hk => ?_, rfl, by omega⟩
                rcases Nat.lt_succ_iff_lt_or_eq.1 hk with hk | rfl
                · exact hgood k hk
                · exact hstate
            | eof => simp [hstate] at h
            | bad => simp [hstate] at h
          · rintro ⟨hall, rfl, hlength⟩
            rw [if_neg (by omega), hall n (by omega)]

theorem makesRead_iff
    (stream : FileStream)
    (n : Nat) :
    MakesRead maxFileBytes stream n ↔
      (∀ k < n, (stream.read k).state = .good) ∧ (delivered stream n).length ≤ maxFileBytes := by
  constructor
  · rintro ⟨body, h⟩
    obtain ⟨hgood, rfl, hlength⟩ := (readRounds_eq_reading_iff hmax stream n body).1 h
    exact ⟨hgood, hlength⟩
  · rintro ⟨hgood, hlength⟩
    exact ⟨_, (readRounds_eq_reading_iff hmax stream n _).2 ⟨hgood, rfl, hlength⟩⟩

/-- The reads that are made are few enough to fill the bound. -/
theorem MakesRead.le
    {stream : FileStream}
    {n : Nat}
    (h : MakesRead maxFileBytes stream n) :
    n ≤ maxFileBytes / 8192 := by
  obtain ⟨hgood, hlength⟩ := (makesRead_iff hmax stream n).1 h
  rw [length_delivered hgood] at hlength
  omega

omit hmax in
/-- What has been returned stays returned. -/
theorem readRounds_returned_mono
    {stream : FileStream}
    {n m : Nat}
    {result : Option Bytes}
    (h : readRounds maxFileBytes stream n = .returned result)
    (hle : n ≤ m) :
    readRounds maxFileBytes stream m = .returned result := by
  induction hle with
  | refl => exact h
  | step _ ih => rw [readRounds, ih, readRound]

/-- The loop returns what it has returned within the rounds that fill the bound. -/
theorem readRounds_returns
    (stream : FileStream) :
    readRounds maxFileBytes stream (maxFileBytes / 8192 + 1) =
      .returned (readStream maxFileBytes (some stream)) := by
  rw [readStream]
  cases hprogress : readRounds maxFileBytes stream (maxFileBytes / 8192 + 1) with
  | reading body =>
      have hle := MakesRead.le hmax ⟨body, hprogress⟩
      omega
  | returned result => rfl

/-- The last read decides the result. -/
theorem readStream_eq_of_last
    {stream : FileStream}
    {n : Nat}
    (hmakes : MakesRead maxFileBytes stream n)
    {result : Option Bytes}
    (hlast : readRound maxFileBytes (stream.read n) (.reading (delivered stream n)) =
      .returned result) :
    readStream maxFileBytes (some stream) = result := by
  obtain ⟨body, hbody⟩ := hmakes
  obtain ⟨_, rfl, _⟩ := (readRounds_eq_reading_iff hmax stream n body).1 hbody
  have hreturned : readRounds maxFileBytes stream (n + 1) = .returned result := by
    rw [readRounds, hbody, hlast]
  have hle := MakesRead.le hmax ⟨_, hbody⟩
  have hend := readRounds_returned_mono hreturned (show n + 1 ≤ maxFileBytes / 8192 + 1 by omega)
  rw [readRounds_returns hmax stream] at hend
  exact ReadProgress.returned.inj hend

omit hmax in
/-- There is a last read: a loop that has returned made one that ended it. -/
theorem exists_last
    {stream : FileStream}
    {rounds : Nat}
    {result : Option Bytes}
    (h : readRounds maxFileBytes stream rounds = .returned result) :
    ∃ n, MakesRead maxFileBytes stream n ∧
      readRounds maxFileBytes stream (n + 1) = .returned result := by
  induction rounds with
  | zero => cases h
  | succ rounds ih =>
      cases hprogress : readRounds maxFileBytes stream rounds with
      | reading body => exact ⟨rounds, ⟨body, hprogress⟩, h⟩
      | returned earlier =>
          rw [readRounds, hprogress, readRound] at h
          cases h
          exact ih hprogress

/-- How the last read ends the loop. -/
theorem readStream_cases
    (stream : FileStream) :
    ∃ n, MakesRead maxFileBytes stream n ∧
      (maxFileBytes < (delivered stream (n + 1)).length ∧
          readStream maxFileBytes (some stream) = none ∨
        (delivered stream (n + 1)).length ≤ maxFileBytes ∧ (stream.read n).state = .bad ∧
          readStream maxFileBytes (some stream) = none ∨
        (delivered stream (n + 1)).length ≤ maxFileBytes ∧ (stream.read n).state = .eof ∧
          readStream maxFileBytes (some stream) = some (delivered stream (n + 1))) := by
  obtain ⟨n, hmakes, hlast⟩ := exists_last (readRounds_returns hmax stream)
  refine ⟨n, hmakes, ?_⟩
  obtain ⟨body, hbody⟩ := hmakes
  obtain ⟨_, rfl, hlength⟩ := (readRounds_eq_reading_iff hmax stream n body).1 hbody
  rw [readRounds, hbody, readRound_reading hmax _ hlength] at hlast
  rw [delivered]
  split_ifs at hlast with hroom
  · exact Or.inl ⟨hroom, (ReadProgress.returned.inj hlast).symm⟩
  · cases hstate : (stream.read n).state with
    | good => simp [hstate] at hlast
    | bad =>
        simp only [hstate, ReadProgress.returned.injEq] at hlast
        exact Or.inr (Or.inl ⟨by omega, rfl, hlast.symm⟩)
    | eof =>
        simp only [hstate, ReadProgress.returned.injEq] at hlast
        exact Or.inr (Or.inr ⟨by omega, rfl, hlast.symm⟩)

/-- A result is what was delivered up to the end of the file. -/
theorem readStream_eq_some_iff
    (opened : Option FileStream)
    (body : Bytes) :
    readStream maxFileBytes opened = some body ↔
      ∃ stream n, opened = some stream ∧ MakesRead maxFileBytes stream n ∧
        (stream.read n).state = .eof ∧ body = delivered stream (n + 1) ∧
        body.length ≤ maxFileBytes := by
  constructor
  · intro h
    cases opened with
    | none => cases h
    | some stream =>
        obtain ⟨n, hmakes, ⟨_, hnone⟩ | ⟨_, _, hnone⟩ | ⟨hlength, hstate, hsome⟩⟩ :=
          readStream_cases hmax stream
        · cases hnone.symm.trans h
        · cases hnone.symm.trans h
        · cases hsome.symm.trans h
          exact ⟨stream, n, rfl, hmakes, hstate, rfl, hlength⟩
  · rintro ⟨stream, n, rfl, hmakes, hstate, rfl, hlength⟩
    refine readStream_eq_of_last hmax hmakes ?_
    rw [readRound_reading hmax _ ((makesRead_iff hmax stream n).1 hmakes).2, hstate,
      if_neg (by simpa [delivered] using hlength)]
    rfl

/-- There is no result without a file, beyond the bound, or where reading fails. -/
theorem readStream_eq_none_iff
    (opened : Option FileStream) :
    readStream maxFileBytes opened = none ↔
      opened = none ∨
      ∃ stream n, opened = some stream ∧ MakesRead maxFileBytes stream n ∧
        (maxFileBytes < (delivered stream (n + 1)).length ∨ (stream.read n).state = .bad) := by
  constructor
  · intro h
    cases opened with
    | none => exact Or.inl rfl
    | some stream =>
        refine Or.inr ?_
        obtain ⟨n, hmakes, ⟨hroom, _⟩ | ⟨_, hstate, _⟩ | ⟨_, _, hsome⟩⟩ :=
          readStream_cases hmax stream
        · exact ⟨stream, n, rfl, hmakes, Or.inl hroom⟩
        · exact ⟨stream, n, rfl, hmakes, Or.inr hstate⟩
        · cases hsome.symm.trans h
  · rintro (rfl | ⟨stream, n, rfl, hmakes, hended⟩)
    · rfl
    · refine readStream_eq_of_last hmax hmakes ?_
      rw [readRound_reading hmax _ ((makesRead_iff hmax stream n).1 hmakes).2]
      rcases hended with hroom | hstate
      · exact if_pos hroom
      · rw [hstate, ite_self]

end Streams

section Unchanging

/-- The stream of fixed bytes that ends, or breaks off, behind them. -/
def streamOfBytes (content : Bytes) (ending : StreamState) (hending : ending ≠ .good) :
    FileStream where
  read n :=
    if content.length < 8192 * (n + 1) then
      ⟨content.drop (8192 * n), ending⟩
    else
      ⟨(content.drop (8192 * n)).take 8192, .good⟩
  length_le n := by
    split
    next hshort =>
      rw [List.length_drop]
      omega
    next =>
      rw [List.length_take]
      omega
  full_of_good n := by
    split
    next => exact fun hgood => absurd hgood hending
    next hlong =>
      intro _
      rw [List.length_take, List.length_drop]
      omega

/-- Opening a file that does not change. -/
def streamOf (file : RegularFile) : Option FileStream :=
  if file.openable then
    match file.faultAt with
    | none => some (streamOfBytes file.content .eof (by decide))
    | some position => some (streamOfBytes (file.content.take position) .bad (by decide))
  else
    none

theorem delivered_streamOfBytes
    (content : Bytes)
    {ending : StreamState}
    (hending : ending ≠ .good)
    (n : Nat) :
    delivered (streamOfBytes content ending hending) n = content.take (8192 * n) := by
  induction n with
  | zero => simp [delivered]
  | succ n ih =>
      rw [delivered, ih, streamOfBytes]
      dsimp only
      split
      next hshort =>
        rw [List.take_append_drop, List.take_of_length_le (by omega)]
      next =>
        rw [Nat.mul_succ, List.take_add]

theorem state_streamOfBytes
    (content : Bytes)
    {ending : StreamState}
    (hending : ending ≠ .good)
    (n : Nat) :
    ((streamOfBytes content ending hending).read n).state =
      if content.length < 8192 * (n + 1) then ending else .good := by
  rw [streamOfBytes]
  dsimp only
  split <;> rfl

variable {maxFileBytes : Nat} (hmax : maxFileBytes < sizeBound)

include hmax

theorem readStream_streamOfBytes
    (content : Bytes)
    {ending : StreamState}
    (hending : ending ≠ .good)
    (body : Bytes) :
    readStream maxFileBytes (some (streamOfBytes content ending hending)) = some body ↔
      ending = .eof ∧ content.length ≤ maxFileBytes ∧ body = content := by
  rw [readStream_eq_some_iff hmax]
  constructor
  · rintro ⟨stream, n, ⟨⟩, _, hstate, rfl, hlength⟩
    rw [state_streamOfBytes] at hstate
    split at hstate
    next hshort =>
      rw [delivered_streamOfBytes, List.take_of_length_le (by omega)] at hlength ⊢
      exact ⟨hstate, hlength, rfl⟩
    next => cases hstate
  · rintro ⟨rfl, hlength, rfl⟩
    have hlast : body.length < 8192 * (body.length / 8192 + 1) := by omega
    refine ⟨_, body.length / 8192, rfl, (makesRead_iff hmax _ _).2 ⟨fun k hk => ?_, ?_⟩, ?_, ?_,
      hlength⟩
    · rw [state_streamOfBytes, if_neg]
      have hfull : 8192 * (k + 1) ≤ 8192 * (body.length / 8192) := Nat.mul_le_mul_left _ hk
      omega
    · rw [delivered_streamOfBytes, List.length_take]
      omega
    · rw [state_streamOfBytes, if_pos hlast]
    · rw [delivered_streamOfBytes, List.take_of_length_le (by omega)]

/-- On a file that does not change, the loop reads what the handler was modelled to read. -/
theorem readStream_streamOf
    (file : RegularFile) :
    readStream maxFileBytes (streamOf file) = readFile file maxFileBytes := by
  refine Option.ext fun body => ?_
  rw [readFile_eq_some_iff file hmax, readable, streamOf]
  cases file.openable with
  | false => simp [readStream]
  | true =>
      cases file.faultAt with
      | none =>
          rw [if_pos rfl, readStream_streamOfBytes hmax]
          simp
      | some position =>
          rw [if_pos rfl, readStream_streamOfBytes hmax]
          simp

end Unchanging

/--
The size limit of `read_file`, for every limit that is a `std::size_t` and everything
that the stream may do.  In every round the body is within the limit, so that the room
left does not wrap; the loop returns; a result is all that was delivered up to the end
of the file, within the limit; and there is none exactly if the file could not be opened,
more than the limit was delivered, or reading failed otherwise than at the end.
-/
theorem readStream_within_limit
    {maxFileBytes : Nat}
    (hmax : maxFileBytes < sizeBound) :
    (∀ stream n body, readRounds maxFileBytes stream n = .reading body →
      body = delivered stream n ∧ body.length ≤ maxFileBytes ∧
      (maxFileBytes + sizeBound - body.length) % sizeBound = maxFileBytes - body.length) ∧
    (∀ stream, ∃ n, readRounds maxFileBytes stream n =
      .returned (readStream maxFileBytes (some stream))) ∧
    (∀ opened body, readStream maxFileBytes opened = some body ↔
      ∃ stream n, opened = some stream ∧ MakesRead maxFileBytes stream n ∧
        (stream.read n).state = .eof ∧ body = delivered stream (n + 1) ∧
        body.length ≤ maxFileBytes) ∧
    ∀ opened, readStream maxFileBytes opened = none ↔
      opened = none ∨
      ∃ stream n, opened = some stream ∧ MakesRead maxFileBytes stream n ∧
        (maxFileBytes < (delivered stream (n + 1)).length ∨ (stream.read n).state = .bad) := by
  refine ⟨?_, fun stream => ⟨_, readRounds_returns hmax stream⟩, readStream_eq_some_iff hmax,
    readStream_eq_none_iff hmax⟩
  intro stream n body h
  obtain ⟨_, hbody, hlength⟩ := (readRounds_eq_reading_iff hmax stream n body).1 h
  exact ⟨hbody, hlength, room_eq hmax hlength⟩

/-- A file of exactly the size limit is read, and one that has grown by a byte is not. -/
theorem readStream_within_limit_exact :
    3 < sizeBound ∧
      readStream 3 (some (streamOfBytes (ascii "abc") .eof (by decide))) = some (ascii "abc") ∧
      readStream 3 (some (streamOfBytes (ascii "abcd") .eof (by decide))) = none := by
  have hmax : 3 < sizeBound := by decide
  obtain ⟨_, _, hsome, hnone⟩ := readStream_within_limit hmax
  refine ⟨hmax, (hsome _ _).2 ⟨_, 0, rfl, ⟨[], rfl⟩, rfl, rfl, by decide⟩, (hnone _).2 (Or.inr ?_)⟩
  exact ⟨_, 0, rfl, ⟨[], rfl⟩, Or.inl (by decide)⟩

end StaticFileHandler

end HttpServer
