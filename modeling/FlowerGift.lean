import FlowerGift.Lib.SortedMap
import FlowerGift.Lib.Run
import FlowerGift.Lib.Hub
import FlowerGift.Lib.Polling
import FlowerGift.Lib.LastWrite
import FlowerGift.Lib.Trim
import FlowerGift.Lib.Grid
import FlowerGift.Lib.Marks
import FlowerGift.Key
import FlowerGift.Records
import FlowerGift.Database
import FlowerGift.Checkout
import FlowerGift.Payment
import FlowerGift.Shop
import FlowerGift.CartScreen
import FlowerGift.CartEntries
import FlowerGift.Bill
import FlowerGift.Reorder
import FlowerGift.Provenance
import FlowerGift.Favourites
import FlowerGift.FavouriteCache
import FlowerGift.FavouriteOwners
import FlowerGift.FavouriteScreens
import FlowerGift.Healing
import FlowerGift.CartDisplay
import FlowerGift.Toggle
import FlowerGift.Orders
import FlowerGift.Accounts
import FlowerGift.Members
import FlowerGift.Profile
import FlowerGift.Outcomes
import FlowerGift.Catalogue
import FlowerGift.Heart
import FlowerGift.Device
import FlowerGift.Cells
import FlowerGift.Storefront
import FlowerGift.CatalogueHearts
import FlowerGift.Lib.Ascending
import FlowerGift.Lib.Enumerator
import FlowerGift.Lib.Document
import FlowerGift.Client.LLRBNode
import FlowerGift.Client.LLRBBalance
import FlowerGift.Client.LLRBInsert
import FlowerGift.Client.LLRBRemove
import FlowerGift.Client.TreeDictionary
import FlowerGift.Client.TreeBuilder
import FlowerGift.Client.ArrayDictionary
import FlowerGift.Client.SortedDictionary
import FlowerGift.Client.KeyEnumerator
import FlowerGift.Client.Path
import FlowerGift.Client.ChildKey
import FlowerGift.Client.Node
import FlowerGift.Client.ImmutableTree
import FlowerGift.Client.CompoundWrite
import FlowerGift.Client.WriteTree
import FlowerGift.Client.EventCache
import FlowerGift.Lib.Redelivery
import FlowerGift.Client.PersistentConnection
import FlowerGift.Client.ConnectionTurn
import FlowerGift.Client.ConnectionInvariant
import FlowerGift.Client.ConnectionRun
import FlowerGift.Client.ConnectionWaits
import FlowerGift.Client.PutDelivery
import FlowerGift.Client.Link
