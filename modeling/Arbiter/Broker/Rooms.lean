import Arbiter.Broker.Exchange

/-!
A transport over channels with room for so many messages. Once the room is used up a channel refuses
everything in its own way; a channel without a limit takes everything.
-/

namespace Arbiter

abbrev Rooms := Table ChannelId (SendRefusal × Nat)

def rooms : Transport Rooms where
  send limits channel _ :=
    match limits.get? channel with
    | none => (.ok (), limits)
    | some (refusal, 0) => (.error refusal, limits)
    | some (refusal, n + 1) => (.ok (), limits.insert channel (refusal, n))

end Arbiter
