namespace LogReplica

inductive CodecError where
  | encodingFailed
  | decodingFailed
  | unexpectedEnd (needed : Nat)
  | trailingBytes (count : Nat)
  | unknownTag (tag : UInt8)
deriving DecidableEq

def CodecError.message? : CodecError → Option String
  | encodingFailed | decodingFailed => none
  | unexpectedEnd needed => some s!"unexpected end of input: needed {needed} more bytes"
  | trailingBytes count => some s!"{count} trailing bytes after value"
  | unknownTag tag => some s!"unknown record tag: {tag}"

end LogReplica
