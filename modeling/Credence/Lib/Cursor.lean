import Credence.Crypto.Hmac
import Credence.Js.Map

/-! The cursors of `src/lib/pagination.ts`: a time and an id with a keyed digest, in `base64url`. -/

namespace Credence.Lib

open Js Crypto

/-- The secret of the configuration, HMAC-SHA-256, and the text of bytes that are no UTF-8. -/
structure CursorKey where
  secret : String
  hmac : Hmac
  malformed : List UInt8 → String

/-- An error with the message `Invalid pagination parameters`, and the path and the message of
each detail. -/
structure PaginationValidationError where
  details : List (String × String)

namespace CursorKey

variable (key : CursorKey)

def signature (t i : String) : String :=
  Buffer.toHex (key.hmac.digest key.secret
    (Buffer.ofUtf8 (Json.obj [("t", .str t), ("i", .str i)]).stringify))

def cursorJson (t i : String) : Json :=
  .obj [("t", .str t), ("i", .str i), ("h", .str (key.signature t i))]

def encodeCursor (t i : String) : String :=
  Buffer.toBase64url (Buffer.ofUtf8 (key.cursorJson t i).stringify)

def decodeCursor (cursor : String) :
    Except PaginationValidationError (Option (String × String)) :=
  match Json.parse (Buffer.toUtf8 key.malformed (Buffer.ofBase64url cursor)) with
  | some (.obj parsed) =>
    match Map.get "t" parsed, Map.get "i" parsed with
    | some (.str t), some (.str i) =>
      match Map.get "h" parsed with
      | some (.str h) =>
        if h = key.signature t i then .ok (some (t, i))
        else .error ⟨[("cursor", "Cursor has been tampered with")]⟩
      | _ => .error ⟨[("cursor", "Cursor signature missing")]⟩
    | _, _ => .ok none
  | _ => .ok none

variable {key} {t i : String}

theorem decodeCursor_encodeCursor :
    key.decodeCursor (key.encodeCursor t i) = .ok (some (t, i)) := by
  have ho : (key.cursorJson t i).OwnOrder := by
    refine ⟨?_, trivial, trivial, trivial, trivial⟩
    simp only [List.map_cons, List.map_nil]
    decide
  rw [decodeCursor, encodeCursor, Buffer.ofBase64url_toBase64url, Buffer.toUtf8_ofUtf8,
    Json.parse_stringify ho]
  simp [cursorJson, Map.get]

theorem encodeCursor_ne_empty : key.encodeCursor t i ≠ "" := by
  intro he
  have hd := @decodeCursor_encodeCursor key t i
  rw [he, decodeCursor, show Buffer.ofBase64url "" = Buffer.ofUtf8 "" from rfl,
    Buffer.toUtf8_ofUtf8, show Json.parse "" = none from rfl] at hd
  cases hd

end CursorKey

end Credence.Lib
