import WireGuard.Library.ByteString
import WireGuard.Library.Checked
import WireGuard.Library.Limbs
import WireGuard.Library.Machine
import WireGuard.Library.Stamp
import WireGuard.Library.Guarded
import WireGuard.Library.Chronicle
import WireGuard.Consts
import WireGuard.Time
import WireGuard.Primitives
import WireGuard.Aead
import WireGuard.AeadInverse
import WireGuard.Message
import WireGuard.Wire
import WireGuard.Noise
import WireGuard.Digests
import WireGuard.Cookie
import WireGuard.Replay
import WireGuard.Session
import WireGuard.Timers
import WireGuard.Tunnel
import WireGuard.Operations.Send
import WireGuard.Operations.SendSpec
import WireGuard.Operations.Receive
import WireGuard.Operations.ReceiveSpec
import WireGuard.Operations.Poll
import WireGuard.Rejection
import WireGuard.Run
import WireGuard.Acts
import WireGuard.Buffers
import WireGuard.Padding
import WireGuard.Refinement
import WireGuard.Traffic
import WireGuard.Ledger
import WireGuard.KeyUse
import WireGuard.Timestamps
import WireGuard.Pacing
import WireGuard.Past
import WireGuard.Indices
import WireGuard.PollBlocks
import WireGuard.Polling
import WireGuard.Exits
import WireGuard.Drain
import WireGuard.Deeds
import WireGuard.Spacing
import WireGuard.Attempt
import WireGuard.Deadlines
import WireGuard.Keepalives
import WireGuard.Restraint
import WireGuard.Discard
import WireGuard.Rollback
import WireGuard.Rotation
import WireGuard.Stranded
import WireGuard.Wake
import WireGuard.Revival
import WireGuard.Pulse
import WireGuard.Undersized
import WireGuard.Calls
import WireGuard.Pair
import WireGuard.Integrity
import WireGuard.Mirror
import WireGuard.Relay
import WireGuard.CookieDance
import WireGuard.Gate
import WireGuard.CookieAge
import WireGuard.JarRun
import WireGuard.Agreement
import WireGuard.Rekeyer
import WireGuard.Handshake
import WireGuard.Acceptance
import WireGuard.RoundTrip
import WireGuard.Recovery
import WireGuard.Embed.Buffer
import WireGuard.Embed.Tunn
import WireGuard.Embed.Address
import WireGuard.Embed.Queue
import WireGuard.Embed.AsyncTunn
import WireGuard.Embed.Driver
import WireGuard.Embed.Conversation
import WireGuard.Embed.Endpoint
import WireGuard.Embed.Socket
import WireGuard.Embed.Limiter
import WireGuard.Embed.SharedPool
import WireGuard.Embed.TimerArm
import WireGuard.Library.Lanes
import WireGuard.ChaCha20
import WireGuard.Simd.Avx2
import WireGuard.Simd.Neon
import WireGuard.Simd.Backends
import WireGuard.Library.Blocks
import WireGuard.Library.Blake2
import WireGuard.Blake2s
import WireGuard.Blake2sDigest
import WireGuard.Poly1305
import WireGuard.Poly1305Tag
import WireGuard.Library.Ladder
import WireGuard.X25519
import WireGuard.X25519Field
import WireGuard.X25519Ladder
import WireGuard.Library.Lucas
import WireGuard.Library.Montgomery
import WireGuard.Curve25519
import WireGuard.Library.Twist
import WireGuard.LowOrder
import WireGuard.KeyAgreement
import WireGuard.Shipped
import WireGuard.Accounts
import WireGuard.Embed.Delivery
