import NopOS.Console.Rendering
import NopOS.Lib.IndexedBuffer

/-!
# Whole formats

A format is a list of pieces: characters, `%%` and conversions.  `vsnprintf`
and `vfprintf` print the text of the pieces one after another, the first of
them as far as the string has room.
-/

namespace NopOS.Console.Snprintf

open NopOS.Lib.IndexedBuffer
open NopOS.Console.Strtol hiding number Conversion
open NopOS.Console.Int2base hiding Fault
open NopOS.Console.PrintFormat
open NopOS.Console.FormatPieces
open NopOS.Console.Rendering

/-! ## Pieces -/

/-- A character of a format, `%%`, or a conversion. -/
inductive Piece where
  | character (c : Byte)
  | percent
  | conversion (c : Conversion)
deriving DecidableEq

/-- A piece as it stands in the format. -/
def Piece.spelled (rest : Text) : Piece → Text
  | .character c => c :: rest
  | .percent => 0x25 :: 0x25 :: rest
  | .conversion c => 0x25 :: c.spelled rest

/-- The format of the pieces. -/
def spelled : List Piece → Text
  | [] => []
  | piece :: pieces => piece.spelled (spelled pieces)

/-- A character stands for itself, neither `%` nor the end of the format. -/
def Piece.Valid : Piece → Prop
  | .character c => c ≠ 0x25 ∧ c ≠ 0
  | .percent => True
  | .conversion c => c.Valid

/-- What was printed so far, the slots which are left, what `%n` stored, and
where the last number ended. -/
structure Rendered where
  text : List Byte
  arg : VaList
  stores : List (U64 × U32)
  numberEnd : Nat

/-- What a conversion adds. -/
def Rendered.after (rendered : Rendered) : Effect → Rendered
  | .text printed => { rendered with text := rendered.text ++ printed }
  | .number printed =>
      { rendered with
        text := rendered.text ++ printed
        numberEnd := (rendered.text ++ printed).length }
  | .count address =>
      { rendered with
        stores :=
          rendered.stores ++
            [(address, BitVec.ofNat 32 rendered.text.length)] }

/-- What a piece adds, unless it is a conversion without a text. -/
def renderPiece (memory : Memory) (rendered : Rendered) :
    Piece → Option Rendered
  | .character c => some (rendered.after (.text [c]))
  | .percent => some (rendered.after (.text [0x25]))
  | .conversion c => do
      let parsed := c.parsed rendered.arg []
      let does ← effect memory parsed c.kind
      return { rendered with arg := parsed.arg.next }.after does

/-- The text of a format, unless some conversion has none. -/
def render (memory : Memory) (pieces : List Piece) (rendered : Rendered) :
    Option Rendered :=
  pieces.foldlM (renderPiece memory) rendered

/-- Nothing printed, and every argument left. -/
def start (arg : VaList) : Rendered :=
  { text := []
    arg
    stores := []
    numberEnd := 0 }

theorem length_le_renderPiece
    {memory : Memory} {piece : Piece} {rendered next : Rendered}
    (renders : renderPiece memory rendered piece = some next) :
    rendered.text.length ≤ next.text.length := by
  have grows (rendered : Rendered) (does : Effect) :
      rendered.text.length ≤ (rendered.after does).text.length := by
    cases does with
    | text printed => exact (List.sublist_append_left _ _).length_le
    | number printed => exact (List.sublist_append_left _ _).length_le
    | count address => exact le_rfl
  cases piece with
  | character c =>
      cases renders
      exact grows _ _
  | percent =>
      cases renders
      exact grows _ _
  | conversion c =>
      rcases Option.bind_eq_some_iff.mp renders with ⟨does, -, same⟩
      cases same
      exact grows { rendered with arg := (c.parsed rendered.arg []).arg.next } does

theorem length_le_render
    {memory : Memory} {pieces : List Piece} {rendered last : Rendered}
    (renders : render memory pieces rendered = some last) :
    rendered.text.length ≤ last.text.length := by
  induction pieces generalizing rendered with
  | nil =>
      cases renders
      exact le_rfl
  | cons piece pieces induction =>
      rw [render, List.foldlM_cons] at renders
      rcases Option.bind_eq_some_iff.mp renders with ⟨next, first, later⟩
      exact (length_le_renderPiece first).trans (induction later)

/-! ## Targets -/

/-- `UINT_MAX`. -/
def uintMax : Nat := 2 ^ 32 - 1

/-- What a kind of target holds after a text, of which a number ended at a
place. -/
structure Sink (n : U32) (size : U64) where
  Holds : List Byte → Nat → Target → Prop
  put :
    ∀ {status : Status} {text : List Byte} {numberEnd : Nat} (c : Byte),
      status.n = n → status.i.toNat = text.length → numberEnd ≤ text.length →
        text.length < uintMax → Holds text numberEnd status.target →
          Holds (text ++ [c]) numberEnd (PrintFormat.put status c).target
  verbatim :
    ∀ {status : Status} {text : List Byte} {numberEnd : Nat} (c : Byte),
      status.n = n → status.i.toNat = text.length → numberEnd ≤ text.length →
        text.length < uintMax → Holds text numberEnd status.target →
          Holds (text ++ [c]) numberEnd
            (PrintFormat.verbatim size status c).target
  endNumber :
    ∀ {status : Status} {text : List Byte} {numberEnd : Nat},
      status.n = n → status.i.toNat = text.length → numberEnd ≤ text.length →
        text.length < uintMax → Holds text numberEnd status.target →
          ∃ target,
            PrintFormat.endNumber status = .ok { status with target := target } ∧
              Holds text text.length target

/-- The status after some pieces. -/
structure Delivered
    {n : U32} {size : U64} (sink : Sink n size) (status : Status)
    (rendered : Rendered) : Prop where
  n_eq : status.n = n
  i_eq : status.i.toNat = rendered.text.length
  arg_eq : status.arg = rendered.arg
  stores_eq : status.stores = rendered.stores
  numberEnd_le : rendered.numberEnd ≤ rendered.text.length
  holds : sink.Holds rendered.text rendered.numberEnd status.target

section Delivered

variable {n : U32} {size : U64} {sink : Sink n size} {status : Status}
  {rendered : Rendered}

theorem toNat_succ
    {i : U32} {length : Nat} (same : i.toNat = length)
    (short : length < uintMax) :
    (i + 1).toNat = length + 1 := by
  have one : (1 : U32).toNat = 1 := rfl
  rw [uintMax] at short
  rw [BitVec.toNat_add, one, same]
  exact Nat.mod_eq_of_lt (by omega)

theorem Delivered.count (delivered : Delivered sink status rendered) :
    status.i = BitVec.ofNat 32 rendered.text.length := by
  rw [← delivered.i_eq, BitVec.ofNat_toNat, BitVec.setWidth_eq]

/-- A target which holds one character more is delivered to. -/
theorem Delivered.character
    (delivered : Delivered sink status rendered)
    (short : rendered.text.length < uintMax) {c : Byte} {target : Target}
    (holds : sink.Holds (rendered.text ++ [c]) rendered.numberEnd target) :
    Delivered sink { status with target := target, i := status.i + 1 }
      (rendered.after (.text [c])) := by
  have length : (rendered.text ++ [c]).length = rendered.text.length + 1 :=
    List.length_append
  constructor
  · exact delivered.n_eq
  · exact (toNat_succ delivered.i_eq short).trans length.symm
  · exact delivered.arg_eq
  · exact delivered.stores_eq
  · exact
      delivered.numberEnd_le.trans (List.sublist_append_left _ _).length_le
  · exact holds

/-- A character is counted, and stored where there is room. -/
theorem Delivered.put
    (delivered : Delivered sink status rendered)
    (short : rendered.text.length < uintMax) (c : Byte) :
    Delivered sink (PrintFormat.put status c) (rendered.after (.text [c])) :=
  delivered.character short
    (sink.put c delivered.n_eq delivered.i_eq delivered.numberEnd_le short
      delivered.holds)

theorem verbatim_eq (size : U64) (status : Status) (c : Byte) :
    PrintFormat.verbatim size status c =
      { status with
        target := (PrintFormat.verbatim size status c).target
        i := status.i + 1 } := by
  rw [PrintFormat.verbatim.eq_def]
  split
  · rfl
  · rfl

theorem Delivered.verbatim
    (delivered : Delivered sink status rendered)
    (short : rendered.text.length < uintMax) (c : Byte) :
    Delivered sink (PrintFormat.verbatim size status c)
      (rendered.after (.text [c])) := by
  rw [verbatim_eq]
  exact
    delivered.character short
      (sink.verbatim c delivered.n_eq delivered.i_eq delivered.numberEnd_le
        short delivered.holds)

/-- So is a text. -/
theorem Delivered.putAll
    (delivered : Delivered sink status rendered) (printed : List Byte)
    (short : rendered.text.length + printed.length < uintMax) :
    Delivered sink (PrintFormat.putAll status printed)
      (rendered.after (.text printed)) := by
  induction printed generalizing status rendered with
  | nil =>
      have same : rendered.after (.text []) = rendered := by
        rw [Rendered.after, List.append_nil]
      rw [same]
      exact delivered
  | cons c printed induction =>
      rw [List.length_cons] at short
      have next := delivered.put (by omega) c
      have room :
          (rendered.after (.text [c])).text.length + printed.length <
            uintMax := by
        rw [Rendered.after, List.length_append, List.length_singleton]
        omega
      have later := induction next room
      have joined :
          (rendered.after (.text [c])).after (.text printed) =
            rendered.after (.text (c :: printed)) := by
        simp only [Rendered.after, List.append_assoc, List.singleton_append]
      rwa [joined] at later

/-- So is the effect of a conversion. -/
theorem Delivered.apply
    (delivered : Delivered sink status rendered) {does : Effect}
    (short : (rendered.after does).text.length < uintMax) :
    ∃ next,
      does.apply status = .ok next ∧
        Delivered sink next (rendered.after does) := by
  cases does with
  | text printed =>
      rw [Rendered.after, List.length_append] at short
      exact ⟨_, rfl, delivered.putAll printed short⟩
  | number printed =>
      rw [Rendered.after, List.length_append] at short
      have printing := delivered.putAll printed short
      rw [← List.length_append] at short
      rcases
          sink.endNumber printing.n_eq printing.i_eq printing.numberEnd_le
            short printing.holds with
        ⟨target, ends, holds⟩
      exact
        ⟨_, ends,
          { n_eq := printing.n_eq
            i_eq := printing.i_eq
            arg_eq := printing.arg_eq
            stores_eq := printing.stores_eq
            numberEnd_le := le_rfl
            holds := holds }⟩
  | count address =>
      refine
        ⟨_, rfl,
          { n_eq := delivered.n_eq
            i_eq := delivered.i_eq
            arg_eq := delivered.arg_eq
            stores_eq := ?_
            numberEnd_le := delivered.numberEnd_le
            holds := delivered.holds }⟩
      dsimp only [Rendered.after]
      rw [delivered.stores_eq, delivered.count]

end Delivered

/-! ## The loop over a format -/

theorem length_spelled_le (c : Conversion) (rest : Text) :
    rest.length ≤ (c.spelled rest).length := by
  have suffix : rest <:+ c.spelled rest := by
    rw [Conversion.spelled]
    exact
      (((List.suffix_cons c.kind.byte rest).trans
        (List.suffix_append _ _)).trans
        (List.suffix_append _ _)).trans
        ((List.suffix_append _ _).trans (List.suffix_append _ _))
  exact suffix.length_le

/-- The loop prints the pieces one after another. -/
theorem formatLoop_render
    {n : U32} {size : U64} {sink : Sink n size} {memory : Memory}
    {pieces : List Piece} (valid : ∀ piece ∈ pieces, piece.Valid)
    {status : Status} {rendered last : Rendered}
    (delivered : Delivered sink status rendered)
    (renders : render memory pieces rendered = some last)
    (short : last.text.length < uintMax)
    {fuel : Nat} (enough : (spelled pieces).length < fuel) :
    ∃ next,
      formatLoop memory size fuel (spelled pieces) status = .ok next ∧
        Delivered sink next last := by
  induction pieces generalizing status rendered fuel with
  | nil =>
      cases renders
      cases fuel with
      | zero => exact absurd enough (Nat.not_lt_zero _)
      | succ fuel => exact ⟨status, rfl, delivered⟩
  | cons piece pieces induction =>
      rw [render, List.foldlM_cons] at renders
      rcases Option.bind_eq_some_iff.mp renders with ⟨middle, first, later⟩
      have laterValid : ∀ piece ∈ pieces, piece.Valid := fun piece inside =>
        valid piece (List.mem_cons_of_mem _ inside)
      have room : middle.text.length < uintMax :=
        (length_le_render later).trans_lt short
      have before : rendered.text.length < uintMax :=
        (length_le_renderPiece first).trans_lt room
      cases fuel with
      | zero => exact absurd enough (Nat.not_lt_zero _)
      | succ fuel =>
          cases piece with
          | character c =>
              cases first
              have other : c ≠ 0x25 := (valid _ List.mem_cons_self).1
              have inside : (spelled pieces).length < fuel :=
                Nat.lt_of_succ_lt_succ enough
              rw [spelled, Piece.spelled, formatLoop, if_pos other]
              exact
                induction laterValid (delivered.verbatim before c) later inside
          | percent =>
              cases first
              have inside : (spelled pieces).length < fuel := by
                rw [spelled, Piece.spelled, List.length_cons,
                  List.length_cons] at enough
                omega
              exact
                induction laterValid (delivered.put before 0x25) later inside
          | conversion c =>
              rcases Option.bind_eq_some_iff.mp first with ⟨does, here, same⟩
              cases same
              have inside : (spelled pieces).length < fuel := by
                have longer := length_spelled_le c (spelled pieces)
                rw [spelled, Piece.spelled, List.length_cons] at enough
                omega
              have validConversion : c.Valid := valid _ List.mem_cons_self
              rw [← delivered.arg_eq] at here room later
              have taken :
                  Delivered sink
                    { status with arg := (c.parsed status.arg []).arg.next }
                    { rendered with arg := (c.parsed status.arg []).arg.next } :=
                { delivered with arg_eq := rfl }
              rcases taken.apply room with ⟨next, applies, nextDelivered⟩
              have printing :=
                print_spelled validConversion here (spelled pieces)
              have percent : ¬ (0x25 : Byte) ≠ 0x25 := fun other => other rfl
              rw [spelled, Piece.spelled, formatLoop, if_neg percent, printing,
                applies]
              exact induction laterValid nextDelivered later inside

/-! ## Strings -/

/-- What a string of a size begins with: a number which reaches its end leaves
a `NUL` there. -/
def shown (n : Nat) (text : List Byte) (numberEnd : Nat) : List Byte :=
  if 0 < n ∧ n ≤ numberEnd then text.take (n - 1) ++ [0] else text.take n

section Shown

variable {n numberEnd : Nat} {text : List Byte}

theorem shown_of_room (room : text.length ≤ n) (before : numberEnd < n) :
    shown n text numberEnd = text := by
  rw [shown, if_neg fun reached => absurd reached.2 (not_le.mpr before)]
  exact List.take_of_length_le room

theorem shown_append (full : n ≤ text.length) (c : Byte) :
    shown n (text ++ [c]) numberEnd = shown n text numberEnd := by
  have less : n - 1 ≤ text.length := (Nat.sub_le n 1).trans full
  rw [shown, shown, List.take_append_of_le_length full,
    List.take_append_of_le_length less]

/-- A character that is stored is shown. -/
theorem overlay_put
    (within : numberEnd ≤ text.length) (s : Nat → Byte) (c : Byte) :
    (if text.length < n then
        Function.update (overlay (shown n text numberEnd) s) text.length c
      else overlay (shown n text numberEnd) s) =
      overlay (shown n (text ++ [c]) numberEnd) s := by
  by_cases room : text.length < n
  · have before : numberEnd < n := within.trans_lt room
    have longer : (text ++ [c]).length ≤ n := by
      rw [List.length_append, List.length_singleton]
      exact room
    rw [if_pos room, shown_of_room room.le before,
      shown_of_room longer before, overlay_append]
  · rw [if_neg room, shown_append (not_lt.mp room)]

theorem shown_full
    (reached : n ≤ text.length)
    (positive : 0 < n) :
    ∃ last, shown n text numberEnd = text.take (n - 1) ++ [last] := by
  rw [shown]
  split
  · exact ⟨0, rfl⟩
  · have inside : n - 1 < text.length := by omega
    have one : n - 1 + 1 = n := Nat.succ_pred_eq_of_pos positive
    refine ⟨text[n - 1], ?_⟩
    rw [List.take_append_getElem inside, one]

/-- A number that fills the string ends it. -/
theorem overlay_endNumber
    (within : numberEnd ≤ text.length) (s : Nat → Byte) :
    (if n ≤ text.length ∧ 0 < n then
        Function.update (overlay (shown n text numberEnd) s) (n - 1) 0
      else overlay (shown n text numberEnd) s) =
      overlay (shown n text text.length) s := by
  by_cases reached : n ≤ text.length ∧ 0 < n
  · have place : (text.take (n - 1)).length = n - 1 := by
      rw [List.length_take]
      omega
    have ended :
        shown n text text.length = text.take (n - 1) ++ [0] := by
      rw [shown, if_pos ⟨reached.2, reached.1⟩]
    rcases shown_full reached.1 reached.2 with ⟨last, before⟩
    have replaced := overlay_replace (text.take (n - 1)) s 0 last
    rw [place] at replaced
    rw [if_pos reached, before, ended]
    exact replaced
  · have other (place : Nat) (most : place ≤ text.length) :
        ¬ (0 < n ∧ n ≤ place) := by
      rintro ⟨positive, below⟩
      exact reached ⟨below.trans most, positive⟩
    rw [if_neg reached, shown, shown, if_neg (other _ within),
      if_neg (other _ le_rfl)]

end Shown

theorem lt_iff_length
    {i n : U32} {size length : Nat} (same : i.toNat = length)
    (sized : n.toNat = size) :
    i < n ↔ length < size := by
  rw [BitVec.lt_def, same, sized]

/-- A string, whose size is taken as an `int`. -/
def stringSink
    (s : Nat → Byte) {n : U32} {size : U64} (sized : n.toNat = size.toNat) :
    Sink n size where
  Holds text numberEnd target :=
    target = .buffer (overlay (shown size.toNat text numberEnd) s)
  put := by
    intro status text numberEnd c ofSize count within _ holds
    rw [put, holds, Target.receive, ← overlay_put within s c, ofSize, count,
      if_congr (lt_iff_length count sized) rfl rfl]
    exact (apply_ite Target.buffer _ _ _).symm
  verbatim := by
    intro status text numberEnd c _ count within _ holds
    rw [verbatim.eq_def, holds, ← overlay_put within s c]
    dsimp only
    rw [count]
    exact (apply_ite Target.buffer _ _ _).symm
  endNumber := by
    intro status text numberEnd ofSize count within _ holds
    refine ⟨_, ?_, rfl⟩
    have reached :
        status.n ≤ status.i ∧ 0 < status.n ↔
          size.toNat ≤ text.length ∧ 0 < size.toNat := by
      rw [BitVec.le_def, BitVec.lt_def, ofSize, count, sized]
      rfl
    have place (positive : 0 < size.toNat) :
        (n - 1).toNat = size.toNat - 1 := by
      rw [BitVec.toNat_sub_of_le, sized]
      · rfl
      · rw [BitVec.le_def, sized]
        exact positive
    rw [← overlay_endNumber within s, endNumber, if_congr reached rfl rfl]
    by_cases full : size.toNat ≤ text.length ∧ 0 < size.toNat
    · rw [if_pos full, if_pos full, holds]
      dsimp only
      rw [ofSize, place full.2]
    · rw [if_neg full, if_neg full, ← holds]

theorem toNat_uintMax : (BitVec.ofNat 32 uintMax).toNat = uintMax :=
  rfl

/-- A stream, whose size is `UINT_MAX`. -/
def streamSink : Sink (BitVec.ofNat 32 uintMax) 0 where
  Holds text _ target := target = .stream text
  put := by
    intro status text numberEnd c ofSize count _ short holds
    rw [put, holds, ofSize, if_pos ((lt_iff_length count toNat_uintMax).mpr short)]
    rfl
  verbatim := by
    intro status text numberEnd c _ _ _ _ holds
    rw [verbatim.eq_def, holds]
  endNumber := by
    intro status text numberEnd ofSize count _ short holds
    refine ⟨status.target, ?_, holds⟩
    have below : ¬ status.n ≤ status.i := by
      rw [ofSize, BitVec.not_le]
      exact (lt_iff_length count toNat_uintMax).mpr short
    rw [endNumber, if_neg fun reached => below reached.1]

/-! ## The functions -/

/-- What a string of a size begins with in the end: a text which fills it has
no `NUL`, unless a number reached its end. -/
def stored (size : Nat) (rendered : Rendered) : List Byte :=
  if rendered.text.length < size then rendered.text ++ [0]
  else shown size rendered.text rendered.numberEnd

section Functions

variable {memory : Memory} {pieces : List Piece} {arg : VaList}
  {last : Rendered}

/-- `vsnprintf` prints the text of the pieces as far as the string has room,
and returns its whole length. -/
theorem vsnprintf_renders
    (valid : ∀ piece ∈ pieces, piece.Valid)
    (renders : render memory pieces (start arg) = some last)
    (short : last.text.length < uintMax)
    (s : Nat → Byte) {n : U64} (narrow : n.toNat < 2 ^ 32) :
    vsnprintf memory s n (spelled pieces) arg =
      .ok
        (overlay (stored n.toNat last) s,
          BitVec.ofNat 32 last.text.length, last.stores) := by
  have sized : (n.setWidth 32).toNat = n.toNat := by
    rw [BitVec.toNat_setWidth, Nat.mod_eq_of_lt narrow]
  have empty : shown n.toNat [] 0 = [] := by
    rw [shown, if_neg (by omega), List.take_nil]
  have begins :
      Delivered (stringSink s sized)
        { n := n.setWidth 32
          i := 0
          target := .buffer s
          arg
          stores := [] }
        (start arg) := by
    refine ⟨rfl, rfl, rfl, rfl, le_rfl, ?_⟩
    change Target.buffer s = .buffer (overlay (shown n.toNat [] 0) s)
    rw [empty, overlay_nil]
  rcases
      formatLoop_render valid begins renders short (Nat.lt_succ_self _) with
    ⟨next, loops, delivered⟩
  have target :
      next.target =
        .buffer (overlay (shown n.toNat last.text last.numberEnd) s) :=
    delivered.holds
  have ends :
      (if last.text.length < n.toNat then
          Function.update
            (overlay (shown n.toNat last.text last.numberEnd) s)
            last.text.length 0
        else overlay (shown n.toNat last.text last.numberEnd) s) =
        overlay (stored n.toNat last) s := by
    rw [stored]
    by_cases room : last.text.length < n.toNat
    · have before := delivered.numberEnd_le.trans_lt room
      rw [if_pos room, if_pos room, shown_of_room room.le before,
        overlay_append]
    · rw [if_neg room, if_neg room]
  rw [vsnprintf, loops]
  dsimp only [bind, Except.bind]
  rw [target]
  dsimp only [pure, Except.pure]
  rw [delivered.i_eq, ends, delivered.count, delivered.stores_eq]

/-- `vfprintf` sends the whole text. -/
theorem vfprintf_renders
    (valid : ∀ piece ∈ pieces, piece.Valid)
    (renders : render memory pieces (start arg) = some last)
    (short : last.text.length < uintMax) :
    vfprintf memory (spelled pieces) arg =
      .ok (last.text, BitVec.ofNat 32 last.text.length, last.stores) := by
  have begins :
      Delivered streamSink
        { n := BitVec.ofNat 32 (2 ^ 32 - 1)
          i := 0
          target := .stream []
          arg
          stores := [] }
        (start arg) :=
    ⟨rfl, rfl, rfl, rfl, le_rfl, rfl⟩
  rcases
      formatLoop_render valid begins renders short (Nat.lt_succ_self _) with
    ⟨next, loops, delivered⟩
  have target : next.target = .stream last.text := delivered.holds
  rw [vfprintf, loops]
  dsimp only [bind, Except.bind]
  rw [target]
  dsimp only [pure, Except.pure]
  rw [delivered.count, delivered.stores_eq]

end Functions

/-! ## The contract of `snprintf` -/

section Contract

variable {memory : Memory} {pieces : List Piece} {arg : VaList}
  {last : Rendered}

theorem overlay_inside
    {items : List Byte} {i : Nat} (inside : i < items.length)
    (buffer : Nat → Byte) :
    overlay items buffer i = items[i] :=
  List.getD_eq_getElem _ _ inside

theorem overlay_behind
    {items : List Byte} {i : Nat} (behind : items.length ≤ i)
    (buffer : Nat → Byte) :
    overlay items buffer i = buffer i :=
  List.getD_eq_default _ _ behind

theorem length_stored (size : Nat) (rendered : Rendered) :
    (stored size rendered).length = min size (rendered.text.length + 1) := by
  rw [stored]
  split
  · rw [List.length_append, List.length_singleton]
    omega
  · rw [shown]
    split
    · rw [List.length_append, List.length_take, List.length_singleton]
      omega
    · rw [List.length_take]
      omega

theorem getElem_stored
    {size i : Nat} {rendered : Rendered}
    (inside : i < rendered.text.length) (below : i < size)
    (within : i < (stored size rendered).length) :
    (stored size rendered)[i] =
      if i + 1 = size ∧ size ≤ rendered.numberEnd then 0
      else rendered.text[i] := by
  by_cases room : rendered.text.length < size
  · have all : stored size rendered = rendered.text ++ [0] := if_pos room
    simp only [all]
    rw [if_neg (by omega), List.getElem_append_left inside]
  · have cut :
        stored size rendered = shown size rendered.text rendered.numberEnd :=
      if_neg room
    by_cases ended : size ≤ rendered.numberEnd
    · have positive : 0 < size := (Nat.zero_le i).trans_lt below
      have terminated :
          stored size rendered = rendered.text.take (size - 1) ++ [0] := by
        rw [cut, shown, if_pos ⟨positive, ended⟩]
      have length : (rendered.text.take (size - 1)).length = size - 1 := by
        rw [List.length_take]
        omega
      simp only [terminated]
      by_cases last : i + 1 = size
      · rw [if_pos ⟨last, ended⟩, List.getElem_append_right (by omega)]
        exact List.getElem_singleton _
      · rw [if_neg fun both => last both.1,
          List.getElem_append_left (by omega), List.getElem_take]
    · have plain : stored size rendered = rendered.text.take size := by
        rw [cut, shown, if_neg fun both => ended both.2]
      simp only [plain]
      rw [if_neg fun both => ended both.2, List.getElem_take]

/-- `vsnprintf` leaves alone what is behind the size or behind the `NUL`,
returns the length of the whole text, and stores the text up to the size; if
the text does not fit then its last byte is a `NUL` only where a number was cut
off. -/
theorem vsnprintf_contract
    (valid : ∀ piece ∈ pieces, piece.Valid)
    (renders : render memory pieces (start arg) = some last)
    (short : last.text.length < uintMax)
    (s : Nat → Byte) {n : U64} (narrow : n.toNat < 2 ^ 32) :
    ∃ after,
      vsnprintf memory s n (spelled pieces) arg =
          .ok (after, BitVec.ofNat 32 last.text.length, last.stores) ∧
        (∀ i, n.toNat ≤ i ∨ last.text.length < i → after i = s i) ∧
        (∀ i, (inside : i < last.text.length) → i < n.toNat →
          after i =
            if i + 1 = n.toNat ∧ n.toNat ≤ last.numberEnd then 0
            else last.text[i]) ∧
        (last.text.length < n.toNat → after last.text.length = 0) := by
  have length := length_stored n.toNat last
  refine
    ⟨_, vsnprintf_renders valid renders short s narrow, ?_, ?_, ?_⟩
  · intro i outside
    exact overlay_behind (by omega) s
  · intro i inside below
    have within : i < (stored n.toNat last).length := by omega
    rw [overlay_inside within, getElem_stored inside below]
  · intro room
    have all : stored n.toNat last = last.text ++ [0] := if_pos room
    have within : last.text.length < (last.text ++ [(0 : Byte)]).length := by
      rw [List.length_append]
      exact Nat.lt_succ_self _
    rw [all, overlay_inside within]
    exact List.getElem_concat_length rfl within

end Contract

/-! ## A format which cuts a number off -/

/-- `=%05d`. -/
def samplePieces : List Piece :=
  [.character 0x3D,
    .conversion
      { flags := [.zero]
        width := .number 5
        precision := .unspecified
        length := .unspecified
        kind := .d }]

/-- A memory without strings, for the samples. -/
def sampleMemory : Memory where
  strings _ := []
  garbage _ := 0xAA

/-- `=-0042`. -/
def sampleRendered : Rendered where
  text := [0x3D, 0x2D, 0x30, 0x30, 0x34, 0x32]
  arg := VaList.next fun _ => -42
  stores := []
  numberEnd := 6

theorem valid_samplePieces : ∀ piece ∈ samplePieces, piece.Valid := by
  intro piece inside
  rcases List.mem_cons.mp inside with rfl | later
  · exact (by decide : (0x3D : Byte) ≠ 0x25 ∧ (0x3D : Byte) ≠ 0)
  · rw [List.mem_singleton.mp later]
    constructor
    · intro number same
      cases same
      decide
    · intro number same
      cases same

/-- A string of four bytes cuts a number of four digits. -/
theorem vsnprintf_contract_cut :
    ∃ after,
      vsnprintf sampleMemory (fun _ => 0xAA) 4 (spelled samplePieces)
            (fun _ => -42) =
          .ok (after, 6, []) ∧
        after 0 = 0x3D ∧ after 2 = 0x30 ∧ after 3 = 0 ∧ after 4 = 0xAA := by
  have renders :
      render sampleMemory samplePieces (start fun _ => -42) =
        some sampleRendered :=
    rfl
  rcases
      vsnprintf_contract valid_samplePieces renders (by decide)
        (fun _ => 0xAA) (n := 4) (by decide) with
    ⟨after, runs, outside, inside, -⟩
  refine ⟨after, runs, ?_, ?_, ?_, ?_⟩
  · exact inside 0 (by decide) (by decide)
  · exact inside 2 (by decide) (by decide)
  · exact inside 3 (by decide) (by decide)
  · exact outside 4 (Or.inl (by decide))

/-- The same pieces on a stream. -/
theorem vfprintf_renders_padded :
    vfprintf sampleMemory (spelled samplePieces) (fun _ => -42) =
      .ok ([0x3D, 0x2D, 0x30, 0x30, 0x34, 0x32], 6, []) :=
  vfprintf_renders valid_samplePieces
    (rfl :
      render sampleMemory samplePieces (start fun _ => -42) =
        some sampleRendered)
    (by decide)

/-! ## Reading a number back -/

/-- A numeric conversion that fits prints its number. -/
theorem effect_number
    {memory : Memory} {parsed : Parsed} {kind : Kind}
    (numeric : kind ∉ [Kind.c, .s, .n])
    (narrow : parsed.width.toNat < 2 ^ 31) {value : U64}
    (passed : argument parsed kind = some value)
    (fits : Fits value (numberFormat parsed kind)) :
    effect memory parsed kind =
      some (.number (numberText (numberFormat parsed kind) value)) := by
  have number :
      numberEffect parsed kind =
        some (.number (numberText (numberFormat parsed kind) value)) := by
    rw [numberEffect, passed]
    exact if_pos fits
  rw [effect.eq_def, ← number]
  dsimp only
  rw [if_pos narrow]
  cases kind with
  | c => exact absurd (by decide) numeric
  | s => exact absurd (by decide) numeric
  | n => exact absurd (by decide) numeric
  | _ => rfl

theorem unsigned_set (chars : List FlagChar) (flags : Flags) :
    (chars.foldl FlagChar.set flags).unsigned = flags.unsigned := by
  induction chars generalizing flags with
  | nil => rfl
  | cons flag chars induction =>
      rw [List.foldl_cons, induction]
      cases flag <;> rfl

/-- Only the kind of a conversion makes it unsigned. -/
theorem unsigned_parsed (c : Conversion) (arg : VaList) (rest : Text) :
    (c.parsed arg rest).flags.unsigned = false := by
  have chars := unsigned_set c.flags noFlags
  have width :
      (c.width.read (c.flags.foldl FlagChar.set noFlags) arg).1.unsigned =
        false := by
    cases c.width with
    | unspecified => exact chars
    | number width => exact chars
    | star =>
        rw [Width.read]
        split
        · exact chars
        · exact chars
  rw [Conversion.parsed]
  dsimp only
  cases c.precision with
  | unspecified => exact width
  | point => exact width
  | number prec => exact width
  | star => exact width

theorem unsigned_kindFlags
    {flags : Flags} (signed : flags.unsigned = false) (kind : Kind) :
    (kindFlags flags kind).unsigned = (kindFlags noFlags kind).unsigned := by
  cases kind with
  | o => rfl
  | u => rfl
  | x => rfl
  | X => rfl
  | p => rfl
  | _ => exact signed

/-- A number is read back from its field. -/
theorem numberText_is_read
    {format : Format} {value : U64}
    (two : 2 ≤ format.base) (most : format.base ≤ 16)
    (narrow : format.width.toNat < 2 ^ 31) (fits : Fits value format) :
    ∃ result,
      ReadBack.readAs format.flags.unsigned (numberText format value)
          format.base =
          some result ∧
        result.value = value ∧ result.erange = false := by
  let after :=
    if format.flags.minus then
      format.width.toNat - (layout value format).length
    else 0
  have spaced :
      numberText format value =
        layout value format ++ ReadBack.spaces after := by
    rw [numberText, ← layout_field value narrow]
    dsimp only [after]
    split
    · rfl
    · rfl
  have digits :
      int2base (fun _ => 0) value format = .ok (layout value format) := by
    rw [int2base_eq _ _ two most, if_pos fits]
  rcases ReadBack.printed_number_is_read two most digits after with
    ⟨result, reads, same, inRange, -⟩
  rw [← spaced] at reads
  exact ⟨result, reads, same, inRange⟩

/-- What `snprintf` prints of a number into a string which is long enough,
`strtol` or `strtoul` reads as the argument again: the value which the length
modifier makes of the slot, if its digits fit the buffer of `int2base`. -/
theorem snprintf_is_read
    {memory : Memory} {c : Conversion} (valid : c.Valid) {arg : VaList}
    (numeric : c.kind ∉ [Kind.c, .s, .n])
    (narrowWidth : (c.parsed arg []).width.toNat < 2 ^ 31) {value : U64}
    (passed : argument (c.parsed arg []) c.kind = some value)
    (fits : Fits value (numberFormat (c.parsed arg []) c.kind))
    (s : Nat → Byte) {n : U64} (narrow : n.toNat < 2 ^ 32)
    (room :
      (numberText (numberFormat (c.parsed arg []) c.kind) value).length <
        n.toNat) :
    ∃ text result,
      vsnprintf memory s n (spelled [.conversion c]) arg =
          .ok (overlay (text ++ [0]) s, BitVec.ofNat 32 text.length, []) ∧
        ReadBack.readAs (kindFlags noFlags c.kind).unsigned text
            (base c.kind) =
          some result ∧
        result.value = value ∧ result.erange = false := by
  have here :
      effect memory (c.parsed (start arg).arg []) c.kind =
        some
          (.number
            (numberText (numberFormat (c.parsed arg []) c.kind) value)) :=
    effect_number numeric narrowWidth passed fits
  have renders :
      render memory [.conversion c] (start arg) =
        some
          ({ start arg with arg := (c.parsed arg []).arg.next }.after
            (.number
              (numberText (numberFormat (c.parsed arg []) c.kind) value))) := by
    simp only [render, List.foldlM_cons, List.foldlM_nil, renderPiece, here]
    rfl
  have only : ∀ piece ∈ [Piece.conversion c], piece.Valid := by
    intro piece inside
    rw [List.mem_singleton.mp inside]
    exact valid
  have bounds := base_bounds c.kind
  have signs :
      (numberFormat (c.parsed arg []) c.kind).flags.unsigned =
        (kindFlags noFlags c.kind).unsigned :=
    unsigned_kindFlags (unsigned_parsed c arg []) c.kind
  have short :
      (numberText (numberFormat (c.parsed arg []) c.kind) value).length <
        uintMax := by
    rw [uintMax]
    omega
  rcases numberText_is_read bounds.1 bounds.2 narrowWidth fits with
    ⟨result, reads, same, inRange⟩
  rw [signs] at reads
  refine ⟨_, result, ?_, reads, same, inRange⟩
  rw [vsnprintf_renders only renders short s narrow, stored]
  exact congrArg
    (fun text => Except.ok (overlay text s, _, [])) (if_pos room)

/-- `%+#-20lx`. -/
def sampleConversion : Conversion where
  flags := [.plus, .alt, .minus]
  width := .number 20
  precision := .unspecified
  length := .l
  kind := .x

/-- The largest 64-bit value in hexadecimal. -/
theorem snprintf_is_read_hexadecimal :
    ∃ text result,
      vsnprintf sampleMemory (fun _ => 0) 32
            (spelled [.conversion sampleConversion])
            (fun _ => BitVec.allOnes 64) =
          .ok
            (overlay (text ++ [0]) fun _ => 0,
              BitVec.ofNat 32 text.length, []) ∧
        ReadBack.readAs true text (16 : Nat) = some result ∧
        result.value = BitVec.allOnes 64 ∧ result.erange = false := by
  have valid : sampleConversion.Valid := by
    constructor
    · intro number same
      cases same
      decide
    · intro number same
      cases same
  exact
    snprintf_is_read valid (by decide) (by decide) rfl (by decide) (fun _ => 0)
      (by decide) (by decide)

end NopOS.Console.Snprintf
