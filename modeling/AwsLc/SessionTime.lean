import AwsLc.SessionCache

/-!
# Expiry of sessions

A session has the time when it was issued and two timeouts, counted from that time: one after which
it is renewed, and one after which its peer has to authenticate again.  Rebasing moves the time to
the current one and reduces the timeouts.  The deadlines are natural numbers.
-/

namespace AwsLc

namespace SessionTimes

variable (session : SessionTimes)

end SessionTimes

open SessionTimes

end AwsLc
