import SoftwareAuthenticator.Ctap.PinClosure
import SoftwareAuthenticator.Ctap.PinPolicy
import SoftwareAuthenticator.Ctap.UserPresence
import SoftwareAuthenticator.Ctap.SignIn
import SoftwareAuthenticator.Ctap.BoundState
import SoftwareAuthenticator.Ctap.LargeBlobReads
import SoftwareAuthenticator.Ctap.U2fFraming
import SoftwareAuthenticator.Ctap.CanonicalResponses
import SoftwareAuthenticator.Ctap.Texts
import SoftwareAuthenticator.Ctaphid.Deletion
import SoftwareAuthenticator.Ctaphid.Settling
import SoftwareAuthenticator.Ctaphid.Refusals
import SoftwareAuthenticator.Ctaphid.Stream
import SoftwareAuthenticator.Ctaphid.Exchange
import SoftwareAuthenticator.Client.Requests
import SoftwareAuthenticator.Store.UtcStamp
import SoftwareAuthenticator.Presence.Notification
import SoftwareAuthenticator.Service.Seat
import SoftwareAuthenticator.MlDsa.ExpandedKey
