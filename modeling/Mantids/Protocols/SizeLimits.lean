import Mantids.Protocols.ChunkedBody
import Mantids.Protocols.PartLimits

/-! Limits that bound what is accepted: of a body whose length is announced or ends with the connection,
but of no chunked body and of no part. -/

set_option autoImplicit false

namespace Mantids.HTTP

open Memory Memory.Streams

namespace Content

end Content

namespace Transfer

section
variable (securityMaxPostDataSize : Fin (2 ^ 64)) (stream : Bytes)

end

end Transfer

end Mantids.HTTP
