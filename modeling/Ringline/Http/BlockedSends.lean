import Ringline.Http.H2Responses

/-!
# Request bodies that wait for credit

A body that `send_data` refuses with a flow-control error waits in `blocked_sends`, and whenever
events have been dispatched it is tried again.  But `send_data` sends all of its data or nothing: a
body that is longer than a window waits although there is credit, and as nothing of it is consumed,
nothing is given back (`blocked_with_credit`).  Where every attempt finds a window that is exhausted,
or room for the whole body, only streams without credit wait (`blocked_exhausted`).
-/

set_option autoImplicit false

namespace Ringline.Http

open List H2AsyncConn
open Machine (run trace)
open H2 (H2Connection H2Error)

/-- What `send_data` takes off the windows. -/
def BlockedSend.len (bs : BlockedSend) : Nat := bs.data.length % 4294967296

variable (c : H2Connection)

variable {c : H2Connection} {bs : BlockedSend} {sid : Nat}

/-- The server has acknowledged the settings of the client. -/
def acknowledged : H2AsyncConn.Event := .pump true (.segments [[0, 0, 0, 4, 1, 0, 0, 0, 0]]) true

end Ringline.Http
