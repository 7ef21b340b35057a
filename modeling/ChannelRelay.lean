import ChannelRelay.Main
import ChannelRelay.Proofs.Clients.Arbitration
import ChannelRelay.Proofs.Clients.Cap
import ChannelRelay.Proofs.Passes.Drift
import ChannelRelay.Proofs.Passes.Race
import ChannelRelay.Proofs.Passes.Resume
import ChannelRelay.Proofs.Settings
import ChannelRelay.Proofs.Signing.Acceptance
import ChannelRelay.Proofs.Signing.Binding
import ChannelRelay.Proofs.Slack.Circle
import ChannelRelay.Proofs.Slack.Delivery
import ChannelRelay.Proofs.Slack.Message
import ChannelRelay.Proofs.Slash.Disclosure
import ChannelRelay.Proofs.Slash.Form
import ChannelRelay.Proofs.Slash.Labels
import ChannelRelay.Proofs.Store.Agreement
import ChannelRelay.Proofs.Store.Filing
import ChannelRelay.Proofs.Store.FullRead
import ChannelRelay.Proofs.Store.Interference
import ChannelRelay.Proofs.Visits.Order
import ChannelRelay.Proofs.Visits.Pair
import ChannelRelay.Proofs.Visits.Refusal
import ChannelRelay.Proofs.Visits.Times
import ChannelRelay.Proofs.Webhook.Address
import ChannelRelay.Proofs.Webhook.Form
import ChannelRelay.Proofs.Webhook.Path
import ChannelRelay.Proofs.Webhook.Payload
import ChannelRelay.Reconcile.Schedule
import ChannelRelay.Token
