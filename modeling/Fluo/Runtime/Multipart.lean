import Fluo.Lib.PlainObject

/-!
# Buffered multipart requests

How the parts of a multipart body become the fields and files of its result. The
fields are collected in a plain object.
-/

namespace Fluo.Runtime

open Js PlainObject

structure UploadedFile where
  buffer : List UInt8
  fieldname : JsString
  mimetype : JsString
  originalname : JsString
  size : Nat
  deriving DecidableEq, Repr

/-- A part, with the decoded value of a field or the chunks of a file's stream. -/
inductive MultipartPart where
  | field (name value : JsString)
  | file (name filename contentType : JsString) (stream : List (List UInt8))
  deriving DecidableEq, Repr

structure MultipartResult where
  fields : Record JsString
  files : List UploadedFile

def appendMultipartField (fields : Record JsString) (name value : JsString) : Record JsString := fields.append name value

def MultipartResult.add (result : MultipartResult) : MultipartPart → MultipartResult
  | .field name value => { result with fields := appendMultipartField result.fields name value }
  | .file name filename contentType stream =>
    let buffer := stream.flatten
    { result with files := result.files ++ [⟨buffer, name, contentType, filename, buffer.length⟩] }

def parseMultipart (parts : List MultipartPart) : MultipartResult := parts.foldl MultipartResult.add ⟨.empty, []⟩

/-! ## Fields and files -/

/-- The decoded fields of a body, in its order. -/
def fieldsOf (parts : List MultipartPart) : List (JsString × JsString) :=
  parts.filterMap fun
    | .field name value => some (name, value)
    | .file .. => none

/-- The files of a body, in its order, each with all its bytes. -/
def filesOf (parts : List MultipartPart) : List UploadedFile :=
  parts.filterMap fun
    | .field .. => none
    | .file name filename contentType stream =>
      some ⟨stream.flatten, name, contentType, filename, stream.flatten.length⟩

theorem addAll_eq (parts : List MultipartPart) (result : MultipartResult) :
    parts.foldl MultipartResult.add result =
      ⟨result.fields.appendAll (fieldsOf parts), result.files ++ filesOf parts⟩ := by
  induction parts generalizing result with
  | nil => exact congrArg (MultipartResult.mk result.fields) (List.append_nil _).symm
  | cons part parts ih =>
    rw [List.foldl_cons, ih]
    cases part with
    | field name value => rfl
    | file name filename contentType stream =>
      exact congrArg (MultipartResult.mk _) (List.append_assoc ..)

theorem parseMultipart_eq (parts : List MultipartPart) :
    parseMultipart parts = ⟨Record.empty.appendAll (fieldsOf parts), filesOf parts⟩ := addAll_eq parts _

theorem mem_fieldsOf {parts : List MultipartPart} {p : JsString × JsString} :
    p ∈ fieldsOf parts ↔ MultipartPart.field p.1 p.2 ∈ parts := by
  rw [fieldsOf, List.mem_filterMap]
  constructor
  · rintro ⟨part, mem, found⟩
    cases part with
    | field name value =>
      cases found
      exact mem
    | file => cases found
  · exact fun mem => ⟨_, mem, rfl⟩

/-- The result has the values of each field and all files, unless a field is
called like a property of `Object.prototype`. -/
theorem parseMultipart_faithful_iff (parts : List MultipartPart) :
    (parseMultipart parts).fields.Groups (fieldsOf parts) ∧ (parseMultipart parts).files = filesOf parts ↔
      ∀ name value, .field name value ∈ parts → name ∉ objectNames := by
  rw [parseMultipart_eq]
  refine (and_iff_left rfl).trans (appendAll_groups_iff.trans ⟨fun free name value mem => ?_, fun free p mem => ?_⟩)
  · exact free (name, value) (mem_fieldsOf.mpr mem)
  · exact free p.1 p.2 (mem_fieldsOf.mp mem)

/-- A field called `constructor` comes back with a function in front of it. -/
theorem constructor_field_invented :
    ¬ (parseMultipart [.field (text "constructor") (text "x")]).fields.Groups
      (fieldsOf [.field (text "constructor") (text "x")]) := by
  intro groups
  have found := groups (text "constructor")
  revert found
  decide

end Fluo.Runtime
