import JitRedis.Util.Strings

/-!
# Replies

The sequence of what a command sends to its client, a deferred length in its place.
-/

namespace JitRedis

/-- What is added to the output buffer of a client. -/
inductive ReplyItem where
  | status (text : Bytes)
  | error (text : Bytes)
  | longLong (value : Int)
  | bulk (text : Bytes)
  | nullBulk
  | multiBulkLen (length : Nat)
  | nullMultiBulk
  deriving DecidableEq

abbrev Reply := List ReplyItem

def addReplyError (text : String) : Reply := [.error (ascii text)]

end JitRedis
