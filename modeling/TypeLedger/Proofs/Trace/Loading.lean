import TypeLedger.Trace.Loader

/-! The ways in which loading a trace ends. Each stage hands on what the one before has found, so the
file alone decides which way it is. -/
namespace TypeLedger.Trace

/-- What comes of loading a file, and what it is about the file that leads there. -/
inductive Loads (path : Text) (contents : Except ReadFailure (List UInt8)) :
    Except Failure (List Record) → Prop
  | nullInPath : .scalar '\x00' ∈ path → Loads path contents (.error (.abort .nullInPath))
  | unreadable {failure : ReadFailure} : contents = .error failure →
      Loads path contents (.error (.error ⟨some path, .unreadable failure⟩))
  | notUtf8 {bytes : List UInt8} {fault : Utf8.Fault} : contents = .ok bytes →
      Utf8.decode bytes = .error fault →
      Loads path contents (.error (.error ⟨some path, .notUtf8 fault⟩))
  | oversized {bytes : List UInt8} {text : Text} {n : Numeral.Oversized} : contents = .ok bytes →
      Utf8.decode bytes = .ok text →
      Json.read (some Numeral.maxDigits) text.unifyNewlines = .error (.oversized n) →
      Loads path contents (.error (.abort (.oversized n)))
  | notJson {bytes : List UInt8} {text : Text} {fault : Json.Fault} : contents = .ok bytes →
      Utf8.decode bytes = .ok text →
      Json.read (some Numeral.maxDigits) text.unifyNewlines = .error (.malformed fault) →
      Loads path contents
        (.error (.error ⟨some path, .notJson fault.cause (fault.position text.unifyNewlines)⟩))
  | refused {bytes : List UInt8} {text : Text} {data : Json.Value} {e : Error} :
      contents = .ok bytes → Utf8.decode bytes = .ok text →
      Json.read (some Numeral.maxDigits) text.unifyNewlines = .ok data →
      parse (some path) data = .error e → Loads path contents (.error (.error e))
  | records {bytes : List UInt8} {text : Text} {data : Json.Value} {records : List Record} :
      contents = .ok bytes → Utf8.decode bytes = .ok text →
      Json.read (some Numeral.maxDigits) text.unifyNewlines = .ok data →
      parse (some path) data = .ok records → Loads path contents (.ok records)

theorem loads_load (path : Text) (contents : Except ReadFailure (List UInt8)) :
    Loads path contents (load path contents) := by
  unfold load
  split
  next null => exact .nullInPath null
  split
  next failure => exact .unreadable rfl
  next bytes =>
  rw [ofBytes]
  split
  next fault invalid => exact .notUtf8 rfl invalid
  next text decoded =>
  rw [ofText]
  split
  next n refused => exact .oversized rfl decoded refused
  next fault malformed => exact .notJson rfl decoded malformed
  next data read =>
  split
  next records parsed => exact .records rfl decoded read parsed
  next e refused => exact .refused rfl decoded read refused

end TypeLedger.Trace
