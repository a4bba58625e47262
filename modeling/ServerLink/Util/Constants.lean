/-!
# ServerLink.Util.Constants

The socket types (`serverlink.h`).
-/

namespace ServerLink

inductive SocketType
  | pair
  | pub
  | sub
  | dealer
  | router
  | xpub
  | xsub
  deriving Repr, DecidableEq

end ServerLink
